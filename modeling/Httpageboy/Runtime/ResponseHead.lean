import Httpageboy.Framing.RoundTrip
import Httpageboy.Runtime.Shared

set_option relaxedAutoImplicit false
set_option autoImplicit false

/-!
# The lines of a response head

Header text arrives from the handler, from the request (a reflected origin) and from the
configured policy. A response head is the status line, the lines of its entries and the empty
line, whatever that text is: text with a line break in it is refused.

## Main definitions

* `Httpageboy.statusText` — the status line without its terminator.
* `Httpageboy.headLines` — the lines of a head.

## Main results

* `Httpageboy.responseHead_eq_some_iff` — a head as lines.
* `Httpageboy.responseHead_lines` — no response splitting.
-/

namespace Httpageboy

open Search

/-- The line of an entry, without its terminator. -/
lemma headerLine_eq (entry : Str × Str) : headerLine entry = fieldLine entry ++ newline := by
  simp [headerLine, fieldLine]

/-- The first line of a head, without its terminator. -/
def statusText (status : StatusCode) : Str := httpVersion ++ ' ' :: status.display

/-- A head is its lines with terminators between them, and two terminators. -/
lemma renderHead_eq (status : StatusCode) (entries : List (Str × Str)) :
    renderHead status entries =
      joinPair '\r' '\n' (statusText status) (entries.map fieldLine) ++ newline ++ newline := by
  have hlines : joinPair '\r' '\n' (statusText status) (entries.map fieldLine) ++ newline =
      unlines '\r' '\n' (statusText status :: entries.map fieldLine) :=
    joinPair_append '\r' '\n' (statusText status) (entries.map fieldLine)
  have hfirst : statusLine status = statusText status ++ newline := by
    show "HTTP/1.1 ".toList ++ status.display ++ newline = _
    have hversion : "HTTP/1.1 ".toList = httpVersion ++ [' '] := by decide
    rw [hversion, statusText]
    simp
  have hentries : entries.flatMap headerLine = unlines '\r' '\n' (entries.map fieldLine) := by
    rw [unlines, List.flatMap_map]
    congr 1
    funext entry
    exact headerLine_eq entry
  rw [hlines, renderHead, hfirst, hentries]
  rfl

/-- A status line has no line break. -/
lemma oneLine_statusText (status : StatusCode) : OneLine (statusText status) := by
  have hversion : OneLine (httpVersion ++ [' ']) := by
    unfold OneLine
    decide
  have hsplit : statusText status = httpVersion ++ [' '] ++ status.display := by simp [statusText]
  obtain ⟨-, hcr, hlf⟩ := status.display_spec
  rw [hsplit]
  exact ⟨fun h => (List.mem_append.1 h).elim hversion.1 hcr,
    fun h => (List.mem_append.1 h).elim hversion.2 hlf⟩

/-- The lines of a head. -/
def headLines (response : Response) (method : Option RequestType) (close : Bool)
    (cors : Option CorsPolicy) (origin : Option Str) : List Str :=
  statusText response.status :: (headEntries response method close cors origin).map fieldLine

/-- A head is its lines and an empty line, each with its terminator. -/
lemma responseHead_eq_some_iff {response : Response} {method : Option RequestType} {close : Bool}
    {cors : Option CorsPolicy} {origin : Option Str} {head : Str} :
    responseHead response method close cors origin = some head ↔
      headValid response cors origin = true ∧
        head = unlines '\r' '\n' (headLines response method close cors origin ++ [[]]) := by
  have hblock : renderHead response.status (headEntries response method close cors origin) =
      unlines '\r' '\n' (headLines response method close cors origin ++ [[]]) := by
    rw [renderHead_eq]
    unfold unlines headLines newline
    rw [List.flatMap_append]
    have hjoin := joinPair_append '\r' '\n' (statusText response.status)
      ((headEntries response method close cors origin).map fieldLine)
    unfold unlines at hjoin
    rw [hjoin]
    rfl
  rw [responseHead_eq, hblock]
  cases headValid response cors origin
  · simp
  · simp only [if_true, Option.some.injEq, true_and]
    exact eq_comm

/-- A header can be written when its name and its value have no line break. -/
lemma validEntry_iff {entry : Str × Str} :
    validEntry entry = true ↔ OneLine entry.1 ∧ OneLine entry.2 := by
  simp [validEntry, validHeaderPart, OneLine]

/-- There is no head exactly when some header has a line break. -/
lemma headValid_eq_false_iff {response : Response} {cors : Option CorsPolicy}
    {origin : Option Str} :
    headValid response cors origin = false ↔
      ∃ entry ∈ response.headers ++ corsLines cors origin,
        ¬ (OneLine entry.1 ∧ OneLine entry.2) := by
  unfold headValid
  rw [← List.all_append, ← Bool.not_eq_true, List.all_eq_true, not_forall]
  simp only [validEntry_iff, not_forall, exists_prop]

/-- The entries of a valid head contain no line break.

**Proof sketch.** Those of the response and of the policy were checked; the other two are a
fixed name with a decimal number and a fixed name with a fixed value. -/
lemma oneLine_headEntries {response : Response} {method : Option RequestType} {close : Bool}
    {cors : Option CorsPolicy} {origin : Option Str} (h : headValid response cors origin = true) :
    ∀ entry ∈ headEntries response method close cors origin,
      OneLine entry.1 ∧ OneLine entry.2 := by
  unfold headValid at h
  rw [Bool.and_eq_true, List.all_eq_true, List.all_eq_true] at h
  obtain ⟨hheaders, hcors⟩ := h
  intro entry hentry
  unfold headEntries at hentry
  rw [List.mem_append, List.mem_append, List.mem_append] at hentry
  rcases hentry with ((hkept | hlength) | hclose) | hcorsLine
  · exact validEntry_iff.1 (hheaders entry (List.mem_of_mem_filter hkept))
  · unfold lengthEntries at hlength
    split at hlength
    · obtain rfl := List.mem_singleton.1 hlength
      have hname : OneLine "Content-Length".toList := by
        unfold OneLine
        decide
      refine ⟨hname, fun hmem => ?_, fun hmem => ?_⟩
      · have hspace := toDigits_trim _ _ hmem
        revert hspace
        decide
      · have hspace := toDigits_trim _ _ hmem
        revert hspace
        decide
    · cases hlength
  · unfold closeEntries at hclose
    split at hclose
    · obtain rfl := List.mem_singleton.1 hclose
      unfold OneLine
      decide
    · cases hclose
  · exact validEntry_iff.1 (hcors entry hcorsLine)

/-- The line of an entry contains no line break. -/
lemma oneLine_fieldLine {entry : Str × Str} (h : OneLine entry.1 ∧ OneLine entry.2) :
    OneLine (fieldLine entry) := by
  obtain ⟨hname, hvalue⟩ := h
  constructor
  · exact cr_notMem_fieldLine hname hvalue
  · simp [fieldLine, hname.2, hvalue.2]

/-- The lines of a head are not empty and contain no line break. -/
lemma oneLine_headLines {response : Response} {cors : Option CorsPolicy} {origin : Option Str}
    (h : headValid response cors origin = true) (method : Option RequestType) (close : Bool) :
    ∀ line ∈ headLines response method close cors origin, OneLine line ∧ line ≠ [] := by
  intro line hline
  rcases List.mem_cons.1 hline with rfl | hfield
  · refine ⟨oneLine_statusText response.status, ?_⟩
    unfold statusText
    simp
  · obtain ⟨entry, hentry, rfl⟩ := List.mem_map.1 hfield
    exact ⟨oneLine_fieldLine (oneLine_headEntries h entry hentry), fieldLine_ne_nil entry⟩

/-- The line that declares the length. -/
lemma fieldLine_lengthEntries (response : Response) (method : Option RequestType) :
    (lengthEntries response method).map fieldLine =
      if responseHasContent method response then
        ["Content-Length: ".toList ++ Nat.toDigits 10 response.body.length] else [] := by
  have hname : "Content-Length: ".toList = "Content-Length".toList ++ [':', ' '] := by
    decide
  unfold lengthEntries fieldLine
  rw [hname]
  cases responseHasContent method response
  · rfl
  · simp

/-- The line that announces the close. -/
lemma fieldLine_closeEntries (close : Bool) :
    (closeEntries close).map fieldLine = if close then ["Connection: close".toList] else [] := by
  cases close <;> decide

/-- **No response splitting.** There is no head exactly when a header of the response (one that
the head would leave out included) or a line of the policy contains a line break. A head has
carriage returns and line feeds in its line terminators only, and an empty line at its end and
nowhere else; its lines are the status line, those of the headers it keeps, the declared length
of a response with content, the announced close, and those of the policy, in this order.

**Proof sketch.** `responseHead_eq_some_iff` writes the head as terminated lines. None of them but
the last is empty, and none contains a line break, so that the empty line is the only one and
splitting the head gives the lines back. -/
theorem responseHead_lines (response : Response) (method : Option RequestType) (close : Bool)
    (cors : Option CorsPolicy) (origin : Option Str) :
    (responseHead response method close cors origin = none ↔
      ∃ entry ∈ response.headers ++ corsLines cors origin,
        ¬ (OneLine entry.1 ∧ OneLine entry.2)) ∧
    ∀ head, responseHead response method close cors origin = some head →
      Paired '\r' '\n' head ∧
      (∃ front, head = front ++ ['\r', '\n', '\r', '\n']) ∧
      (∀ u v, head = u ++ ['\r', '\n', '\r', '\n'] ++ v → v = []) ∧
      splitPair '\r' '\n' head =
        [httpVersion ++ ' ' :: response.status.display] ++
        (response.headers.filter fun entry =>
          !(Str.eqIgnoreAsciiCase entry.1 "content-length".toList ||
            (Str.eqIgnoreAsciiCase entry.1 "connection".toList && close))).map fieldLine ++
        (if responseHasContent method response then
          ["Content-Length: ".toList ++ Nat.toDigits 10 response.body.length] else []) ++
        (if close then ["Connection: close".toList] else []) ++
        (corsLines cors origin).map fieldLine ++ [[], []] := by
  constructor
  · rw [← headValid_eq_false_iff, responseHead_eq]
    cases headValid response cors origin <;> simp
  · intro head hhead
    obtain ⟨hvalid, rfl⟩ := responseHead_eq_some_iff.1 hhead
    have hlines := oneLine_headLines hvalid method close
    have hblock : unlines '\r' '\n' (headLines response method close cors origin ++ [[]]) =
        unlines '\r' '\n' (headLines response method close cors origin) ++ newline := by
      rw [unlines, List.flatMap_append]
      rfl
    have hempty : OneLine [] := ⟨List.not_mem_nil, List.not_mem_nil⟩
    have hall : ∀ line ∈ headLines response method close cors origin ++ [[]], OneLine line := by
      intro line hline
      rcases List.mem_append.1 hline with hline | hline
      · exact (hlines line hline).1
      · exact List.mem_singleton.1 hline ▸ hempty
    refine ⟨paired_unlines (by decide) hall, ?_, ?_, ?_⟩
    · rw [hblock, headLines, ← joinPair_append, List.append_assoc]
      exact ⟨_, rfl⟩
    · intro u v h
      rw [hblock] at h
      refine eq_nil_of_blank_line (by decide) (hlines _ List.mem_cons_self).1.1 ?_ h
      intro line hline
      obtain ⟨hone, hne⟩ := hlines line (List.mem_cons_of_mem _ hline)
      exact ⟨hone.1, hne⟩
    · rw [splitPair_unlines (by decide) fun line hline => (hall line hline).1, headLines,
        headEntries, List.map_append, List.map_append, List.map_append, fieldLine_lengthEntries,
        fieldLine_closeEntries]
      simp only [List.append_assoc, List.cons_append, List.nil_append]
      rfl

end Httpageboy
