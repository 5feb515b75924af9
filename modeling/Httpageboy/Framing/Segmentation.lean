import Httpageboy.Core.Stream
import Httpageboy.Framing.Stability

set_option relaxedAutoImplicit false
set_option autoImplicit false

/-!
# Segmentation independence

How the network cuts the bytes of a client into reads does not matter. The reader feeds the
framer with the reads as they come, which is framing the whole string at once because the
framer is stable; the outcomes of all calls are those that `wholeOutcomes` computes from the
string alone.

## Main definitions

* `Httpageboy.Cut` — the reads deliver the pieces of a string, then end of stream.
* `Httpageboy.streamOutcomes` — the outcomes of repeated calls of `parse_stream`.
* `Httpageboy.wholeOutcomes` — the same from the whole string.

## Main results

* `Httpageboy.readLoop_feed` — a call of the reader feeds the framer.
* `Httpageboy.streamOutcomes_eq` — the outcomes are those of the whole string.
* `Httpageboy.segmentation_independent` — so they do not depend on the reads.
-/

namespace Httpageboy

open Incremental

variable {H U : Type}

/-! ## The reads of a string -/

/-- The reads deliver the pieces one by one, each nonempty and of at most 4096 bytes, and then
the end of the stream at least `n` times. No read times out or fails. -/
inductive Cut : List Bytes → ℕ → List Read → Prop
  | eof {n : ℕ} {reads : List Read} (hend : ∀ read ∈ reads, read.result = .ok [])
      (hn : n ≤ reads.length) : Cut [] n reads
  | piece {n : ℕ} {piece : Bytes} {pieces : List Bytes} {read : Read} {reads : List Read}
      (hresult : read.result = .ok piece) (hne : piece ≠ []) (hlen : piece.length ≤ 4096)
      (hcut : Cut pieces n reads) : Cut (piece :: pieces) n (read :: reads)

/-- Fewer reads may be asked for. -/
lemma Cut.mono {pieces : List Bytes} {n m : ℕ} {reads : List Read} (h : Cut pieces n reads)
    (hle : m ≤ n) : Cut pieces m reads := by
  induction h with
  | eof hend hn => exact .eof hend (Nat.le_trans hle hn)
  | piece hresult hne hlen hcut ih => exact .piece hresult hne hlen (ih hle)

/-! ## One call -/

/-- What a call comes to when the stream ends behind the string, and what it leaves. -/
def atEnd (limits : RequestLimits) (s : Bytes) : StreamRead Bytes × Bytes :=
  if s = [] then (.closed, [])
  else
    match frame limits true s with
    | .error status => (.error (errorResponse status), s)
    | .ok none => (.error (errorResponse .badRequest), s)
    | .ok (some (raw, rest)) => (.ready raw, rest)

/-- What a call comes to on the whole string, and what it leaves. -/
def front (limits : RequestLimits) (s : Bytes) : StreamRead Bytes × Bytes :=
  match frame limits false s with
  | .error status => (.error (errorResponse status), s)
  | .ok none => atEnd limits s
  | .ok (some (raw, rest)) => (.ready raw, rest)

/-- The outcome of a call and the reader it leaves are those of feeding the framer with the
pieces. -/
def Answers (limits : RequestLimits) (n : ℕ) (pieces : List Bytes) (buffer : Bytes)
    (outcome : StreamRead Bytes) (reader : Reader) : Prop :=
  match feed (frame limits false) pieces buffer with
  | .error status => outcome = .error (errorResponse status)
  | .ok none => outcome = (atEnd limits (buffer ++ pieces.flatten)).1 ∧
      reader.buffer = (atEnd limits (buffer ++ pieces.flatten)).2 ∧ Cut [] n reader.reads
  | .ok (some (raw, rest, pieces)) =>
      outcome = .ready raw ∧ reader.buffer = rest ∧ Cut pieces n reader.reads

/-- The deadline of a request expired. -/
def timedOut : Response := errorResponse .requestTimeout

/-- With positive timeouts the only way not to read on is an expired deadline. -/
lemma nextWait_cases {limits : RequestLimits} (hidle : 0 < limits.idleTimeout)
    (hkeep : 0 < limits.keepAliveTimeout) (keepAlive : Bool) (started : Option ℕ) (now : ℕ) :
    nextWait limits keepAlive started now = .error (.error timedOut) ∨
      ∃ wait, nextWait limits keepAlive started now = .ok wait := by
  unfold nextWait
  cases started with
  | none =>
    have hwait : (if keepAlive then limits.keepAliveTimeout else limits.idleTimeout) ≠ 0 := by
      cases keepAlive
      · exact Nat.pos_iff_ne_zero.1 hidle
      · exact Nat.pos_iff_ne_zero.1 hkeep
    simp only [if_neg hwait]
    exact .inr ⟨_, rfl⟩
  | some startedAt =>
    simp only
    split_ifs
    · exact .inl rfl
    · exact .inl rfl
    · exact .inr ⟨_, rfl⟩

/-- The framer waits for more bytes when the decoder does, and keeps the buffer. -/
lemma frame_eq_none {limits : RequestLimits} {idleEnd : Bool} {buffer buffer' : Bytes}
    (h : takeFramedRequest buffer limits idleEnd = (.ok none, buffer')) :
    frame limits idleEnd buffer = .ok none ∧ buffer' = buffer := by
  refine ⟨by simp [frame, h], ?_⟩
  rcases takeFramedRequest_unchanged buffer limits idleEnd with ⟨raw, hraw⟩ | hbuffer
  · simp [h] at hraw
  · rw [h] at hbuffer
    exact hbuffer

/-- The call at the end of the stream. -/
lemma finishRead_eq (limits : RequestLimits) (reader : Reader) (hne : reader.buffer ≠ []) :
    (finishRead limits .badRequest reader).1 = (atEnd limits reader.buffer).1 ∧
      (finishRead limits .badRequest reader).2.buffer = (atEnd limits reader.buffer).2 ∧
      (finishRead limits .badRequest reader).2.reads = reader.reads := by
  unfold finishRead atEnd
  rw [if_neg hne]
  have hunchanged := takeFramedRequest_unchanged reader.buffer limits true
  rcases hcall : takeFramedRequest reader.buffer limits true with ⟨status | _ | raw, buffer⟩
  · rw [hcall] at hunchanged
    have hbuffer : buffer = reader.buffer := by simpa using hunchanged
    simp [frame, hcall, hbuffer]
  · obtain ⟨hframe, hbuffer⟩ := frame_eq_none hcall
    simp [hframe, hbuffer]
  · simp [frame, hcall]

/-- **A call of the reader feeds the framer** with what the reads deliver, unless the deadline
of the request expires.

**Proof sketch.** Induction on the reads. Every turn of the loop asks the framer first, as
`feed` does; the loop then reads on, unless the stream has ended. -/
theorem readLoop_feed {limits : RequestLimits} (hidle : 0 < limits.idleTimeout)
    (hkeep : 0 < limits.keepAliveTimeout) (keepAlive : Bool) {pieces : List Bytes} {n : ℕ}
    {reads : List Read} (hcut : Cut pieces (n + 1) reads) (started : Option ℕ) (now : ℕ)
    (buffer : Bytes) :
    ∃ outcome reader, readLoop limits keepAlive reads started now buffer = some (outcome, reader) ∧
      (outcome = .error timedOut ∨ Answers limits n pieces buffer outcome reader) := by
  induction reads generalizing pieces started now buffer with
  | nil =>
    cases hcut with
    | eof hend hn => simp at hn
  | cons read reads ih =>
    unfold readLoop Answers feed
    rcases hcall : takeFramedRequest buffer limits false with ⟨status | _ | raw, buffer'⟩
    · have hframe : frame limits false buffer = .error status := by simp [frame, hcall]
      simp only [hframe]
      exact ⟨_, _, rfl, .inr rfl⟩
    · obtain ⟨hframe, rfl⟩ := frame_eq_none hcall
      simp only [hframe]
      rcases nextWait_cases hidle hkeep keepAlive started now with hwait | ⟨wait, hwait⟩
      · simp only [hwait]
        exact ⟨_, _, rfl, .inl rfl⟩
      simp only [hwait]
      cases hcut with
      | eof hend hn =>
        have hresult : read.result = .ok [] := hend read List.mem_cons_self
        have hrest : Cut [] n reads :=
          .eof (fun r hr => hend r (List.mem_cons_of_mem _ hr)) (by simpa using hn)
        simp only [hresult, List.flatten_nil, List.append_nil]
        by_cases hempty : buffer' = []
        · subst hempty
          exact ⟨.closed, _, rfl, .inr ⟨rfl, rfl, hrest⟩⟩
        · obtain ⟨houtcome, hbuffer, hreads⟩ :=
            finishRead_eq limits ⟨buffer', now + min read.elapsed wait, reads⟩ hempty
          have hrest' : Cut [] n (finishRead limits .badRequest
              ⟨buffer', now + min read.elapsed wait, reads⟩).2.reads := by
            rw [hreads]
            exact hrest
          rw [if_neg hempty]
          exact ⟨_, _, rfl, .inr ⟨houtcome, hbuffer, hrest'⟩⟩
      | @piece _ piece pieces _ _ hresult hne hlen hcut =>
        obtain ⟨b, bs, rfl⟩ := List.exists_cons_of_ne_nil hne
        simp only [hresult]
        have hassoc : buffer' ++ ((b :: bs) :: pieces).flatten =
            buffer' ++ (b :: bs) ++ pieces.flatten := by simp
        rw [hassoc]
        exact ih hcut _ _ _
    · have hframe : frame limits false buffer = .ok (some (raw, buffer')) := by
        simp [frame, hcall]
      simp only [hframe]
      refine ⟨_, _, rfl, .inr ⟨rfl, rfl, hcut.mono (Nat.le_succ n)⟩⟩

/-- A call of the reader comes to what the whole string comes to, unless the deadline of the
request expires; behind a request, the rest of the string is still to come. -/
lemma readRequest_front {limits : RequestLimits} (hidle : 0 < limits.idleTimeout)
    (hkeep : 0 < limits.keepAliveTimeout) (keepAlive : Bool) {pieces : List Bytes} {n : ℕ}
    {reader : Reader} (hcut : Cut pieces (n + 1) reader.reads)
    (hword : FitsWord limits (reader.buffer ++ pieces.flatten)) :
    ∃ outcome reader', readRequest limits keepAlive reader = some (outcome, reader') ∧
      (outcome = .error timedOut ∨
        (outcome = (front limits (reader.buffer ++ pieces.flatten)).1 ∧
          ∀ raw, outcome = .ready raw → ∃ pieces', Cut pieces' n reader'.reads ∧
            reader'.buffer ++ pieces'.flatten =
              (front limits (reader.buffer ++ pieces.flatten)).2)) := by
  obtain ⟨outcome, reader', hcall, hanswers⟩ := readLoop_feed hidle hkeep keepAlive hcut
    (if reader.buffer = [] then none else some reader.now) reader.now reader.buffer
  refine ⟨outcome, reader', hcall, hanswers.imp_right fun hanswers => ?_⟩
  have hwhole := feed_eq (frame_stable limits) pieces reader.buffer hword
  unfold Answers at hanswers
  unfold front
  rcases hfeed : feed (frame limits false) pieces reader.buffer with
    status | _ | ⟨raw, rest, pieces'⟩
  · simp only [hfeed, joined] at hanswers hwhole
    rw [← hwhole]
    refine ⟨hanswers, fun raw hraw => ?_⟩
    rw [hanswers] at hraw
    cases hraw
  · simp only [hfeed, joined] at hanswers hwhole
    obtain ⟨houtcome, hbuffer, hrest⟩ := hanswers
    rw [← hwhole]
    refine ⟨houtcome, fun raw _ => ⟨[], hrest, ?_⟩⟩
    rw [List.flatten_nil, List.append_nil]
    exact hbuffer
  · simp only [hfeed, joined] at hanswers hwhole
    obtain ⟨houtcome, hbuffer, hrest⟩ := hanswers
    rw [← hwhole]
    refine ⟨houtcome, fun raw _ => ⟨pieces', hrest, ?_⟩⟩
    rw [hbuffer]

/-! ## All calls -/

/-- The outcomes of at most `n` calls of `parse_stream`, after `handled` requests: up to the
first one that is no request. The handlers of each call may behave differently. -/
def streamOutcomes (env : ℕ → Env H) (routes : Routes H U) (fileBases : List Str)
    (limits : RequestLimits) : ℕ → ℕ → Reader → List (StreamRead (Bytes × Routed H U))
  | 0, _, _ => []
  | n + 1, handled, reader =>
    match parseStream (env handled) routes fileBases limits (0 < handled) reader with
    | none => []
    | some (.ready request, reader) =>
      .ready request :: streamOutcomes env routes fileBases limits n (handled + 1) reader
    | some (outcome, _) => [outcome]

/-- The outcomes on the whole string. -/
def wholeOutcomes {α : Type} (route : ℕ → Bytes → α) (limits : RequestLimits) :
    ℕ → ℕ → Bytes → List (StreamRead α)
  | 0, _, _ => []
  | n + 1, handled, s =>
    match front limits s with
    | (.ready raw, rest) =>
      .ready (route handled raw) :: wholeOutcomes route limits n (handled + 1) rest
    | (outcome, _) => [outcome.map (route handled)]

/-- The string and the outcomes of its calls: no deadline expires. -/
def InTime {α : Type} (outcomes : List (StreamRead α)) : Prop :=
  StreamRead.error timedOut ∉ outcomes

/-- A request that is taken off the whole string leaves a shorter one. -/
lemma length_front {limits : RequestLimits} {s raw rest : Bytes}
    (h : front limits s = (.ready raw, rest)) : rest.length < s.length := by
  have hlen : ∀ idleEnd, frame limits idleEnd s = .ok (some (raw, rest)) →
      rest.length < s.length := by
    intro idleEnd hframe
    unfold frame at hframe
    rcases hcall : takeFramedRequest s limits idleEnd with ⟨status | _ | raw', rest'⟩
    · simp [hcall] at hframe
    · simp [hcall] at hframe
    · have hlt := length_lt_of_takeFramedRequest hcall
      simp only [hcall, Except.ok.injEq, Option.some.injEq, Prod.mk.injEq] at hframe
      rwa [hframe.2] at hlt
  unfold front atEnd at h
  rcases hframe : frame limits false s with status | _ | ⟨raw', rest'⟩
  · simp [hframe] at h
  · simp only [hframe] at h
    split_ifs at h
    · simp at h
    · rcases hend : frame limits true s with status | _ | ⟨raw', rest'⟩
      · simp [hend] at h
      · simp [hend] at h
      · simp only [hend, Prod.mk.injEq, StreamRead.ready.injEq] at h
        rw [h.1, h.2] at hend
        exact hlen true hend
  · simp only [hframe, Prod.mk.injEq, StreamRead.ready.injEq] at h
    rw [h.1, h.2] at hframe
    exact hlen false hframe

/-- The whole string never makes a call wait in vain. -/
lemma front_ne_idle (limits : RequestLimits) (s : Bytes) : (front limits s).1 ≠ .idle := by
  unfold front atEnd
  rcases frame limits false s with status | _ | ⟨raw, rest⟩
  · simp
  · simp only
    split_ifs
    · simp
    · rcases frame limits true s with status | _ | ⟨raw, rest⟩ <;> simp
  · simp

/-- The outcomes on the whole string end in end of stream or an error. -/
lemma wholeOutcomes_ends {α : Type} (route : ℕ → Bytes → α) (limits : RequestLimits) {n : ℕ}
    (handled : ℕ) {s : Bytes} (hn : s.length < n) :
    ∃ outcome, (wholeOutcomes route limits n handled s).getLast? = some outcome ∧
      (outcome = .closed ∨ ∃ response, outcome = .error response) := by
  induction n generalizing handled s with
  | zero => omega
  | succ n ih =>
    unfold wholeOutcomes
    have hidle := front_ne_idle limits s
    rcases hfront : front limits s with ⟨raw | _ | _ | response, rest⟩
    · have hlt := length_front hfront
      obtain ⟨outcome, hlast, hends⟩ := ih (handled + 1) (by omega : rest.length < n)
      refine ⟨outcome, ?_, hends⟩
      simp only [List.getLast?_cons, hlast, Option.getD_some]
    · simp [hfront] at hidle
    · exact ⟨.closed, rfl, .inl rfl⟩
    · exact ⟨.error response, rfl, .inr ⟨response, rfl⟩⟩

/-- **The outcomes of all calls are those of the whole string.**

**Proof sketch.** Induction on the calls: each one takes off the front of the string that is
left, and the rest of the string is what the buffer and the reads to come hold together. -/
theorem streamOutcomes_eq (env : ℕ → Env H) (routes : Routes H U) (fileBases : List Str)
    {limits : RequestLimits} (hidle : 0 < limits.idleTimeout)
    (hkeep : 0 < limits.keepAliveTimeout) {n : ℕ} (handled : ℕ) {pieces : List Bytes}
    {reader : Reader} (hcut : Cut pieces n reader.reads)
    (hword : FitsWord limits (reader.buffer ++ pieces.flatten))
    (htime : InTime (streamOutcomes env routes fileBases limits n handled reader)) :
    streamOutcomes env routes fileBases limits n handled reader =
      wholeOutcomes (fun i raw => (raw, parseRaw (env i) raw routes fileBases)) limits n handled
        (reader.buffer ++ pieces.flatten) := by
  induction n generalizing handled pieces reader with
  | zero => rfl
  | succ n ih =>
    obtain ⟨outcome, reader', hcall, hanswer⟩ :=
      readRequest_front hidle hkeep (decide (0 < handled)) hcut hword
    have hparse : parseStream (env handled) routes fileBases limits (decide (0 < handled)) reader =
        some (outcome.map fun raw => (raw, parseRaw (env handled) raw routes fileBases),
          reader') := by
      simp [parseStream, hcall]
    unfold streamOutcomes at htime ⊢
    unfold wholeOutcomes
    rw [hparse] at htime ⊢
    rcases hanswer with rfl | ⟨hfront, hrest⟩
    · exact absurd List.mem_cons_self htime
    rcases hwhole : front limits (reader.buffer ++ pieces.flatten) with ⟨first, rest⟩
    rw [hwhole] at hfront hrest
    subst hfront
    cases outcome with
    | ready raw =>
      obtain ⟨pieces', hcut', hbuffer⟩ := hrest raw rfl
      have hlen := length_front hwhole
      have hword' : FitsWord limits (reader'.buffer ++ pieces'.flatten) := by
        rw [hbuffer]
        exact hword.mono (Nat.le_of_lt hlen)
      have htime' : InTime (streamOutcomes env routes fileBases limits n (handled + 1) reader') :=
        fun hmem => htime (List.mem_cons_of_mem _ hmem)
      have hrec := ih (handled + 1) hcut' hword' htime'
      rw [hbuffer] at hrec
      simp only [StreamRead.map, hrec]
    | idle => rfl
    | closed => rfl
    | error response => rfl

/-- **Segmentation independence.** What the framer decides on a prefix is final. For every
string and every two ways of cutting it into reads, repeated calls of `parse_stream` on the
persistent buffer have the same outcomes as long as no deadline expires: the same requests in
the same order, then the same end of stream or the same error.

**Proof sketch.** The framer is stable, so by `streamOutcomes_eq` both sequences are that of the
whole string, which ends because every request shortens it. -/
theorem segmentation_independent (limits : RequestLimits) (hidle : 0 < limits.idleTimeout)
    (hkeep : 0 < limits.keepAliveTimeout) :
    (∀ buffer t, FitsWord limits (buffer ++ t) →
      (∀ raw rest, takeFramedRequest buffer limits false = (.ok (some raw), rest) →
        takeFramedRequest (buffer ++ t) limits false = (.ok (some raw), rest ++ t)) ∧
      ∀ status rest, takeFramedRequest buffer limits false = (.error status, rest) →
        takeFramedRequest (buffer ++ t) limits false = (.error status, buffer ++ t)) ∧
    ∀ (H U : Type) (env : ℕ → Env H) (routes : Routes H U) (fileBases : List Str) (s : Bytes),
      FitsWord limits s → ∀ (n : ℕ) (pieces₁ pieces₂ : List Bytes) (reads₁ reads₂ : List Read)
        (now₁ now₂ : ℕ), Cut pieces₁ n reads₁ → Cut pieces₂ n reads₂ →
        pieces₁.flatten = s → pieces₂.flatten = s →
        InTime (streamOutcomes env routes fileBases limits n 0 ⟨[], now₁, reads₁⟩) →
        InTime (streamOutcomes env routes fileBases limits n 0 ⟨[], now₂, reads₂⟩) →
        streamOutcomes env routes fileBases limits n 0 ⟨[], now₁, reads₁⟩ =
          streamOutcomes env routes fileBases limits n 0 ⟨[], now₂, reads₂⟩ ∧
        (s.length < n → ∃ outcome,
          (streamOutcomes env routes fileBases limits n 0 ⟨[], now₁, reads₁⟩).getLast? =
            some outcome ∧ (outcome = .closed ∨ ∃ response, outcome = .error response)) := by
  refine ⟨fun buffer t hword => ⟨fun raw rest hcall => ?_, fun status rest hcall => ?_⟩, ?_⟩
  · rw [takeFramedRequest_append t hword (by simp [hcall]), hcall]
  · have hrest : rest = buffer := by
      rcases takeFramedRequest_unchanged buffer limits false with ⟨raw, hraw⟩ | hrest
      · simp [hcall] at hraw
      · rw [hcall] at hrest
        exact hrest
    rw [takeFramedRequest_append t hword (by simp [hcall]), hcall, hrest]
  · intro H U env routes fileBases s hword n pieces₁ pieces₂ reads₁ reads₂ now₁ now₂ hcut₁ hcut₂
      hs₁ hs₂ htime₁ htime₂
    have hwhole : ∀ (pieces : List Bytes) (reads : List Read) (now : ℕ), Cut pieces n reads →
        pieces.flatten = s →
        InTime (streamOutcomes env routes fileBases limits n 0 ⟨[], now, reads⟩) →
        streamOutcomes env routes fileBases limits n 0 ⟨[], now, reads⟩ =
          wholeOutcomes (fun i raw => (raw, parseRaw (env i) raw routes fileBases))
            limits n 0 s := by
      intro pieces reads now hcut hs htime
      have hbuffer : FitsWord limits ([] ++ pieces.flatten) := by
        rw [List.nil_append, hs]
        exact hword
      rw [streamOutcomes_eq env routes fileBases hidle hkeep 0 hcut hbuffer htime,
        List.nil_append, hs]
    rw [hwhole pieces₁ reads₁ now₁ hcut₁ hs₁ htime₁, hwhole pieces₂ reads₂ now₂ hcut₂ hs₂ htime₂]
    exact ⟨rfl, fun hn => wholeOutcomes_ends _ limits 0 hn⟩

/-- An application whose handlers answer nothing and that has no files. -/
def emptyEnv : Env Unit where
  handle := fun _ _ => Response.new
  fs := { isDir := fun _ => false, canonicalize := fun _ => none, read := fun _ => none }

/-- A short request, as bytes. -/
def shortRequest : Bytes := Utf8.encode "GET / HTTP/1.1\r\n\r\n".toList

/-- The stream has ended. -/
def eofReads : List Read := List.replicate 20 ⟨0, .ok []⟩

/-- The end of the stream, over and over, is a cut of the empty string. -/
lemma cut_eofReads : Cut [] 20 eofReads :=
  .eof (fun _ hread => by rw [List.eq_of_mem_replicate hread]) (by decide)

/-- Outcomes without a timeout, checked one by one. -/
lemma inTime_of_all {α : Type} {outcomes : List (StreamRead α)}
    (h : (outcomes.all fun outcome =>
      match outcome with
      | .error response => response.status ≠ .requestTimeout
      | _ => true) = true) : InTime outcomes := by
  intro hmem
  have htimeout := List.all_eq_true.1 h _ hmem
  simp [timedOut, errorResponse] at htimeout

/-- A request that arrives whole, and the same in two pieces and later, have the same outcomes. -/
theorem segmentation_independent_shortRequest :
    let whole : List Read := ⟨0, .ok shortRequest⟩ :: eofReads
    let parts : List Read :=
      ⟨1, .ok (shortRequest.take 3)⟩ :: ⟨2, .ok (shortRequest.drop 3)⟩ :: eofReads
    let outcomes := fun reads now => streamOutcomes (U := Unit) (fun _ => emptyEnv) ∅ []
      RequestLimits.default 20 0 ⟨[], now, reads⟩
    outcomes whole 0 = outcomes parts 7 ∧
      (shortRequest.length < 20 → ∃ outcome, (outcomes whole 0).getLast? = some outcome ∧
        (outcome = .closed ∨ ∃ response, outcome = .error response)) := by
  intro whole parts outcomes
  have hwhole : Cut [shortRequest] 20 whole :=
    .piece rfl (by decide) (by decide) cut_eofReads
  have hparts : Cut [shortRequest.take 3, shortRequest.drop 3] 20 parts :=
    .piece rfl (by decide) (by decide)
      (.piece rfl (by decide) (by decide) cut_eofReads)
  exact (segmentation_independent RequestLimits.default (by decide) (by decide)).2 Unit Unit
    (fun _ => emptyEnv) ∅ [] shortRequest (.inl (by decide)) 20 _ _ whole parts 0 7 hwhole hparts
    (by simp) (by simp) (inTime_of_all (by decide)) (inTime_of_all (by decide))

end Httpageboy
