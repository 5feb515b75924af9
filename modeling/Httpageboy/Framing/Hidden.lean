import Httpageboy.Framing.Headers

set_option relaxedAutoImplicit false
set_option autoImplicit false

/-!
# Hidden framing headers

The framer compares the names of header lines as they stand, up to letter case. A name that is
that of a framing field only once it is trimmed is overlooked: the line has no say in where the
request ends.

## Main definitions

* `Httpageboy.hides` — a header line that is overlooked.
* `Httpageboy.TakesPart` — every framing header, its name trimmed, takes part in the decision.

## Main results

* `Httpageboy.takesPart_iff` — every framing header of an accepted head takes part in the
  decision exactly when none is hidden.
-/

namespace Httpageboy

open Search

/-- Whether the name of a header line is that of a framing field only once it is trimmed. -/
def hides (line : Str) : Bool :=
  match Str.splitOnce ':' line with
  | some (name, _) => isFramingName (Str.trim name) && !isFramingName name
  | none => false

/-- The framing is the one that a header says, its name trimmed. -/
def Says (name value : Str) (framing : BodyFraming) : Prop :=
  (Str.eqIgnoreAsciiCase (Str.trim name) "content-length".toList = true →
    ∃ n, framing = .length n ∧ Str.fromStrRadix 10 usizeMax (Str.trim value) = some n) ∧
  (Str.eqIgnoreAsciiCase (Str.trim name) "transfer-encoding".toList = true →
    framing = .chunked ∧ (value.splitOn ',').map canonicalCoding = ["chunked".toList])

/-- Every header line that names a framing field, its name trimmed, takes part in the decision:
the framing is what the line says, and the head without the line has another framing. -/
def TakesPart (lines : List Str) (framing : BodyFraming) : Prop :=
  ∀ before line after name value, lines = before ++ line :: after →
    Str.splitOnce ':' line = some (name, value) → isFramingName (Str.trim name) = true →
    Says name value framing ∧ bodyFraming (before ++ after) ≠ .ok framing

/-- A framing field has no white space in its name. -/
lemma trim_of_isFramingName {name : Str} (h : isFramingName name = true) :
    Str.trim name = name := by
  simp only [isFramingName, Bool.or_eq_true] at h
  rcases h with h | h
  · exact Str.trim_of_eqIgnoreAsciiCase (Str.not_isWhitespace_of_all (by decide)) h
  · exact Str.trim_of_eqIgnoreAsciiCase (Str.not_isWhitespace_of_all (by decide)) h

/-- Two values in front of and behind a single one leave no room for others. -/
lemma eq_nil_of_append_cons {α : Type} {a c : List α} {b d : α} (h : a ++ b :: c = [d]) :
    a = [] ∧ b = d ∧ c = [] := by
  cases a with
  | nil => exact ⟨rfl, by simpa using h⟩
  | cons e a => simp at h

/-- A `Content-Length` line of an accepted head is the only one, and the framing is its length. -/
lemma length_of_decides {before after : List Str} {line name value : Str} {framing : BodyFraming}
    (hdecides : Decides (before ++ line :: after) framing)
    (hline : Str.splitOnce ':' line = some (name, value))
    (hname : Str.eqIgnoreAsciiCase name "content-length".toList = true) :
    (∃ n, framing = .length n ∧ Str.fromStrRadix 10 usizeMax (Str.trim value) = some n) ∧
      lengthValues (before ++ after) = [] := by
  have hvalues : lengthValues (before ++ line :: after) =
      lengthValues before ++ value :: lengthValues after := by
    have hcons : lengthValues (line :: after) = value :: lengthValues after :=
      fieldValues_cons_of_eq hline hname after
    rw [lengthValues_append, hcons]
  cases framing with
  | none => simp [hdecides.1] at hvalues
  | chunked => simp [hdecides.1] at hvalues
  | length n =>
    obtain ⟨-, value', hvalue', hn⟩ := hdecides
    rw [hvalue'] at hvalues
    obtain ⟨hbefore, rfl, hafter⟩ := eq_nil_of_append_cons hvalues.symm
    refine ⟨⟨n, rfl, hn⟩, ?_⟩
    rw [lengthValues_append, hbefore, hafter, List.nil_append]

/-- A `Transfer-Encoding` line of an accepted head is the only one, and it says `chunked`. -/
lemma chunked_of_decides {before after : List Str} {line name value : Str} {framing : BodyFraming}
    (hdecides : Decides (before ++ line :: after) framing)
    (hline : Str.splitOnce ':' line = some (name, value))
    (hname : Str.eqIgnoreAsciiCase name "transfer-encoding".toList = true) :
    (framing = .chunked ∧ (value.splitOn ',').map canonicalCoding = ["chunked".toList]) ∧
      codings (before ++ after) = [] := by
  obtain ⟨piece, pieces, hpieces⟩ := List.exists_cons_of_ne_nil (List.splitOn_ne_nil ',' value)
  have hcodings : codings (before ++ line :: after) =
      codings before ++ piece :: (pieces ++ codings after) := by
    have hcons : codings (line :: after) = piece :: (pieces ++ codings after) := by
      unfold codings
      rw [fieldValues_cons_of_eq hline hname, List.flatMap_cons, hpieces, List.cons_append]
    rw [codings_append, hcons]
  cases framing with
  | none => simp [hdecides.2] at hcodings
  | length n => simp [hdecides.1] at hcodings
  | chunked =>
    obtain ⟨-, hchunked⟩ := hdecides
    rw [hcodings, List.map_append, List.map_cons] at hchunked
    obtain ⟨hbefore, hpiece, hafter⟩ := eq_nil_of_append_cons hchunked
    rw [List.map_eq_nil_iff] at hbefore
    rw [List.map_eq_nil_iff, List.append_eq_nil_iff] at hafter
    obtain ⟨hnil, hafter⟩ := hafter
    refine ⟨⟨rfl, ?_⟩, ?_⟩
    · rw [hpieces, hnil, List.map_singleton, hpiece]
    · rw [codings_append, hbefore, hafter, List.nil_append]

/-- A hidden line leaves the decision as it is. -/
lemma decides_of_hides {before after : List Str} {line : Str} {framing : BodyFraming}
    (hides : hides line = true) :
    Decides (before ++ after) framing ↔ Decides (before ++ line :: after) framing := by
  unfold Httpageboy.hides at hides
  cases hline : Str.splitOnce ':' line with
  | none => simp [hline] at hides
  | some entry =>
    obtain ⟨name, value⟩ := entry
    simp only [hline, isFramingName, Bool.and_eq_true, Bool.not_eq_true', Bool.or_eq_false_iff]
      at hides
    obtain ⟨-, hlength, hencoding⟩ := hides
    apply decides_congr
    · have hcons : lengthValues (line :: after) = lengthValues after :=
        fieldValues_cons_of_ne hline (Bool.eq_false_iff.1 hlength) after
      rw [lengthValues_append, lengthValues_append, hcons]
    · have hcons : codings (line :: after) = codings after := by
        unfold codings
        rw [fieldValues_cons_of_ne hline (Bool.eq_false_iff.1 hencoding)]
      rw [codings_append, codings_append, hcons]

/-- In the header lines of an accepted head, taking part and not being hidden are the same.

**Proof sketch.** A line that is hidden could be left out and the same would be decided
(`decides_of_hides`). A line that is not hidden has one of the two names, and it is the only one
that says what is decided: without it something else would be. -/
lemma takesPart_iff_of_ok {lines : List Str} (hne : ∀ line ∈ lines, line ≠ [])
    {framing : BodyFraming} (hok : bodyFraming lines = .ok framing) :
    TakesPart lines framing ↔ ∀ line ∈ lines, hides line = false := by
  obtain ⟨hcolon, hdecides⟩ := (bodyFraming_eq_ok_iff hne).1 hok
  constructor
  · intro h line hmem
    by_contra hhides
    have hhides : hides line = true := by simpa using hhides
    obtain ⟨before, after, rfl⟩ := List.append_of_mem hmem
    obtain ⟨name, value, hline⟩ : ∃ name value, Str.splitOnce ':' line = some (name, value) := by
      cases hsplit : Str.splitOnce ':' line with
      | none => simp [hides, hsplit] at hhides
      | some entry => exact ⟨entry.1, entry.2, rfl⟩
    have hname : isFramingName (Str.trim name) = true := by
      have hboth := hhides
      simp only [hides, hline, Bool.and_eq_true] at hboth
      exact hboth.1
    obtain ⟨-, hother⟩ := h before line after name value rfl hline hname
    apply hother
    refine (bodyFraming_eq_ok_iff fun l hl => hne l ?_).2 ⟨fun l hl => hcolon l ?_, ?_⟩
    · rcases List.mem_append.1 hl with hl | hl <;> simp [hl]
    · rcases List.mem_append.1 hl with hl | hl <;> simp [hl]
    · exact (decides_of_hides hhides).2 hdecides
  · intro h before line after name value hlines hline hname
    subst hlines
    have hframingName : isFramingName name = true := by
      have hhides := h line (by simp)
      simpa [hides, hline, hname] using hhides
    have hdecides' : bodyFraming (before ++ after) = .ok framing →
        Decides (before ++ after) framing := fun hok' =>
      ((bodyFraming_eq_ok_iff fun l hl => hne l (by
        rcases List.mem_append.1 hl with hl | hl <;> simp [hl])).1 hok').2
    unfold Says
    rw [trim_of_isFramingName hframingName]
    by_cases hlength : Str.eqIgnoreAsciiCase name "content-length".toList = true
    · obtain ⟨⟨n, hframing, hn⟩, hvalues⟩ := length_of_decides hdecides hline hlength
      refine ⟨⟨fun _ => ⟨n, hframing, hn⟩, fun he =>
        absurd he (not_transferEncoding_of_contentLength hlength)⟩, fun hok' => ?_⟩
      have hother := hdecides' hok'
      rw [hframing] at hother
      obtain ⟨-, value', hvalue', -⟩ := hother
      rw [hvalues] at hvalue'
      cases hvalue'
    · have hencoding : Str.eqIgnoreAsciiCase name "transfer-encoding".toList = true := by
        simp only [isFramingName, Bool.or_eq_true] at hframingName
        exact hframingName.resolve_left hlength
      obtain ⟨⟨hframing, hpieces⟩, hcodings⟩ := chunked_of_decides hdecides hline hencoding
      refine ⟨⟨fun hl => absurd hl hlength, fun _ => ⟨hframing, hpieces⟩⟩, fun hok' => ?_⟩
      have hother := hdecides' hok'
      rw [hframing] at hother
      have hchunked := hother.2
      rw [hcodings] at hchunked
      cases hchunked

/-- **Every framing header of an accepted head takes part in the decision exactly when none is
hidden.**

**Proof sketch.** A hidden line changes nothing: the head without it is framed the same way. A
line that is not hidden and names a framing field is the only one that does, so the framing is
what it says, and without it the head declares no body. -/
theorem takesPart_iff {buffer raw rest : Bytes} {limits : RequestLimits} {idleEnd : Bool}
    (h : takeFramedRequest buffer limits idleEnd = (.ok (some raw), rest)) :
    ∃ head tail framing body, BlankSplit buffer head tail ∧
      extractBodyHeaders head = .ok framing ∧ raw = Utf8.encode head ++ crlfcrlf ++ body ∧
      BodyTaken limits idleEnd head tail body rest framing ∧
      (TakesPart (headerLines head) framing ↔ ∀ line ∈ headerLines head, hides line = false) := by
  obtain ⟨head, tail, framing, body, hsplit, -, hframing, hraw, hbody⟩ :=
    takeFramedRequest_eq_some_iff.1 h
  refine ⟨head, tail, framing, body, hsplit, hframing, hraw, hbody, ?_⟩
  exact takesPart_iff_of_ok (fun line hline => hsplit.ne_nil_of_mem hline) hframing

/-- A head whose only framing header has a space behind its name. -/
def hiddenHead : Str := "GET / HTTP/1.1\r\nContent-Length : 5".toList

/-- The receive buffer of a request with that head and five more bytes. -/
def hiddenBuffer : Bytes := Utf8.encode (hiddenHead ++ "\r\n\r\nhello".toList)

/-- The framer takes the head alone. -/
lemma hiddenBuffer_taken :
    takeFramedRequest hiddenBuffer RequestLimits.default false =
      (.ok (some (Utf8.encode (hiddenHead ++ "\r\n\r\n".toList))),
        Utf8.encode "hello".toList) := by
  unfold hiddenBuffer hiddenHead
  rewrite [String.toList_ofList, String.toList_ofList, String.toList_ofList, String.toList_ofList]
  decide

/-- The hidden length stands in a buffer that is accepted, so that the equivalence applies to it. -/
theorem hiddenBuffer_takesPart_iff :
    ∃ head tail framing body, BlankSplit hiddenBuffer head tail ∧
      extractBodyHeaders head = .ok framing ∧
      Utf8.encode (hiddenHead ++ "\r\n\r\n".toList) = Utf8.encode head ++ crlfcrlf ++ body ∧
      BodyTaken RequestLimits.default false head tail body (Utf8.encode "hello".toList) framing ∧
      (TakesPart (headerLines head) framing ↔ ∀ line ∈ headerLines head, hides line = false) :=
  takesPart_iff hiddenBuffer_taken

/-- The code takes that request for one without a body, and its body for the next request. -/
theorem hiddenBuffer_not_takesPart :
    takeFramedRequest hiddenBuffer RequestLimits.default false =
        (.ok (some (Utf8.encode (hiddenHead ++ "\r\n\r\n".toList))),
          Utf8.encode "hello".toList) ∧
      BlankSplit hiddenBuffer hiddenHead (Utf8.encode "hello".toList) ∧
      extractBodyHeaders hiddenHead = .ok .none ∧ ¬ TakesPart (headerLines hiddenHead) .none := by
  have hok : extractBodyHeaders hiddenHead = .ok .none := by
    unfold hiddenHead
    rewrite [String.toList_ofList]
    decide
  have hsplit : BlankSplit hiddenBuffer hiddenHead (Utf8.encode "hello".toList) := by
    unfold hiddenBuffer hiddenHead
    rewrite [String.toList_ofList, String.toList_ofList, String.toList_ofList]
    exact ⟨by decide, by decide⟩
  refine ⟨hiddenBuffer_taken, hsplit, hok, fun h => ?_⟩
  have hlines : headerLines hiddenHead = ["Content-Length : 5".toList] := by
    unfold hiddenHead
    rewrite [String.toList_ofList, String.toList_ofList]
    decide
  rw [hlines] at h
  obtain ⟨⟨hlength, -⟩, -⟩ := h [] _ [] "Content-Length ".toList " 5".toList rfl
    (by decide) (by decide)
  obtain ⟨n, hn, -⟩ := hlength (by decide)
  cases hn

end Httpageboy
