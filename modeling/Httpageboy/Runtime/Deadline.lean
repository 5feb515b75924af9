import Httpageboy.Framing.Bounds
import Httpageboy.Framing.Segmentation
import Httpageboy.Runtime.Server

set_option relaxedAutoImplicit false
set_option autoImplicit false

/-!
# The deadlines of a request

The reader waits for the first byte of a request, and then for the rest of it until the total
deadline, but never longer than the idle timeout for the next byte. `issuedReads` lists the reads
of one call with their timeouts and the time they take; a call is a run of turns that each issue
one read, so that what holds of all reads is an induction along the run.

## Main definitions

* `Httpageboy.IssuedRead`, `Httpageboy.issuedReads` — the reads of one call.
* `Httpageboy.ReaderRun` — one call of the reader, turn by turn.
* `Httpageboy.Reader.arrivals` — when the bytes of a request reach the reader.

## Main results

* `Httpageboy.readLoop_run` — every call of the reader is a run.
* `Httpageboy.ReaderRun.returns` — a call of the reader returns after a bounded number of reads.
* `Httpageboy.parseStream_deadline` — a slow client cannot hold the reader past its deadline.
* `Httpageboy.quiet_iff` — when a body that ends with the client's silence is not cut short.
-/

namespace Httpageboy

open Search

variable {H U : Type}

/-! ## The reads of a call -/

/-- A read that the reader issued: when, with which timeout, how long it took and its result. -/
structure IssuedRead where
  start : ℕ
  timeout : ℕ
  duration : ℕ
  result : Except ReadError Bytes

/-- The time a read takes: all of its timeout when it times out, and no more otherwise. -/
def Read.duration (read : Read) (timeout : ℕ) : ℕ :=
  match read.result with
  | .error .timedOut => timeout
  | _ => min read.elapsed timeout

/-- A read that does not time out returns when the client lets it, within the timeout. -/
lemma Read.duration_of_ne {read : Read} (h : read.result ≠ .error .timedOut) (timeout : ℕ) :
    read.duration timeout = min read.elapsed timeout := by
  unfold Read.duration
  split
  · exact absurd ‹_› h
  · rfl

/-- A read as it is issued. -/
def Read.issue (read : Read) (now timeout : ℕ) : IssuedRead :=
  ⟨now, timeout, read.duration timeout, read.result⟩

/-- The reads that `readLoop` issues. -/
def issuedReads (limits : RequestLimits) (keepAlive : Bool) :
    List Read → Option ℕ → ℕ → Bytes → List IssuedRead
  | reads, started, now, buffer =>
    match takeFramedRequest buffer limits false with
    | (.ok none, buffer) =>
      match nextWait limits keepAlive started now with
      | .error _ => []
      | .ok wait =>
        match reads with
        | [] => []
        | read :: reads =>
          read.issue now wait ::
            match read.result with
            | .ok [] => []
            | .ok chunk =>
              let now := now + min read.elapsed wait
              issuedReads limits keepAlive reads (started.or (some now)) now (buffer ++ chunk)
            | .error _ => []
    | _ => []

/-- The reads of a call of the reader. -/
def Reader.issued (limits : RequestLimits) (keepAlive : Bool) (reader : Reader) :
    List IssuedRead :=
  let started := if reader.buffer = [] then none else some reader.now
  issuedReads limits keepAlive reader.reads started reader.now reader.buffer

/-- The time that reads take together. -/
def totalTime (issued : List IssuedRead) : ℕ := (issued.map IssuedRead.duration).sum

/-! ## Runs -/

/-- One call of the reader, turn by turn: the framer decides, the deadline has passed, the call
waits for a read that never returns, or a read returns, and the call ends with it or goes on. -/
inductive ReaderRun (limits : RequestLimits) (keepAlive : Bool) :
    List Read → Option ℕ → ℕ → Bytes → List IssuedRead → Option (StreamRead Bytes × Reader) → Prop
  | ready {reads : List Read} {started : Option ℕ} {now : ℕ} {buffer raw rest : Bytes}
      (hframe : takeFramedRequest buffer limits false = (.ok (some raw), rest)) :
      ReaderRun limits keepAlive reads started now buffer [] (some (.ready raw, ⟨rest, now, reads⟩))
  | rejected {reads : List Read} {started : Option ℕ} {now : ℕ} {buffer rest : Bytes}
      {status : StatusCode}
      (hframe : takeFramedRequest buffer limits false = (.error status, rest)) :
      ReaderRun limits keepAlive reads started now buffer []
        (some (.error (errorResponse status), ⟨rest, now, reads⟩))
  | overdue {reads : List Read} {started : Option ℕ} {now : ℕ} {buffer : Bytes}
      {outcome : StreamRead Bytes}
      (hframe : takeFramedRequest buffer limits false = (.ok none, buffer))
      (hwait : nextWait limits keepAlive started now = .error outcome) :
      ReaderRun limits keepAlive reads started now buffer [] (some (outcome, ⟨buffer, now, reads⟩))
  | blocked {started : Option ℕ} {now wait : ℕ} {buffer : Bytes}
      (hframe : takeFramedRequest buffer limits false = (.ok none, buffer))
      (hwait : nextWait limits keepAlive started now = .ok wait) :
      ReaderRun limits keepAlive [] started now buffer [] none
  | eof {read : Read} {reads : List Read} {started : Option ℕ} {now wait : ℕ} {buffer : Bytes}
      (hframe : takeFramedRequest buffer limits false = (.ok none, buffer))
      (hwait : nextWait limits keepAlive started now = .ok wait) (hresult : read.result = .ok []) :
      ReaderRun limits keepAlive (read :: reads) started now buffer [read.issue now wait]
        (if buffer = [] then some (.closed, ⟨buffer, now + read.duration wait, reads⟩)
          else some (finishRead limits .badRequest ⟨buffer, now + read.duration wait, reads⟩))
  | timedOut {read : Read} {reads : List Read} {started : Option ℕ} {now wait : ℕ}
      {buffer : Bytes} (hframe : takeFramedRequest buffer limits false = (.ok none, buffer))
      (hwait : nextWait limits keepAlive started now = .ok wait)
      (hresult : read.result = .error .timedOut) :
      ReaderRun limits keepAlive (read :: reads) started now buffer [read.issue now wait]
        (if started = none then some (.idle, ⟨buffer, now + read.duration wait, reads⟩)
          else some (finishRead limits .requestTimeout ⟨buffer, now + read.duration wait, reads⟩))
  | failed {read : Read} {reads : List Read} {started : Option ℕ} {now wait : ℕ} {buffer : Bytes}
      (hframe : takeFramedRequest buffer limits false = (.ok none, buffer))
      (hwait : nextWait limits keepAlive started now = .ok wait)
      (hresult : read.result = .error .other) :
      ReaderRun limits keepAlive (read :: reads) started now buffer [read.issue now wait]
        (some (.error (errorResponse .badRequest), ⟨buffer, now + read.duration wait, reads⟩))
  | chunk {read : Read} {reads : List Read} {started : Option ℕ} {now wait : ℕ}
      {buffer chunk : Bytes} {issued : List IssuedRead}
      {result : Option (StreamRead Bytes × Reader)}
      (hframe : takeFramedRequest buffer limits false = (.ok none, buffer))
      (hwait : nextWait limits keepAlive started now = .ok wait)
      (hresult : read.result = .ok chunk) (hne : chunk ≠ [])
      (hrun : ReaderRun limits keepAlive reads (started.or (some (now + read.duration wait)))
        (now + read.duration wait) (buffer ++ chunk) issued result) :
      ReaderRun limits keepAlive (read :: reads) started now buffer (read.issue now wait :: issued)
        result

/-- **Every call of the reader is a run**, with the reads it issues.

**Proof sketch.** Induction on the reads to come, along the branches of the loop. -/
theorem readLoop_run (limits : RequestLimits) (keepAlive : Bool) (reads : List Read)
    (started : Option ℕ) (now : ℕ) (buffer : Bytes) :
    ReaderRun limits keepAlive reads started now buffer
      (issuedReads limits keepAlive reads started now buffer)
      (readLoop limits keepAlive reads started now buffer) := by
  induction reads generalizing started now buffer with
  | nil =>
    unfold readLoop issuedReads
    rcases hcall : takeFramedRequest buffer limits false with ⟨status | _ | raw, rest⟩
    · exact .rejected hcall
    · obtain ⟨-, rfl⟩ := frame_eq_none hcall
      cases hwait : nextWait limits keepAlive started now with
      | error outcome => exact .overdue hcall hwait
      | ok wait => exact .blocked hcall hwait
    · exact .ready hcall
  | cons read reads ih =>
    unfold readLoop issuedReads
    rcases hcall : takeFramedRequest buffer limits false with ⟨status | _ | raw, rest⟩
    · exact .rejected hcall
    · obtain ⟨-, rfl⟩ := frame_eq_none hcall
      cases hwait : nextWait limits keepAlive started now with
      | error outcome => exact .overdue hcall hwait
      | ok wait =>
        simp only
        rcases hresult : read.result with (_ | _) | (_ | ⟨byte, chunk⟩)
        · have hduration : read.duration wait = wait := by simp only [Read.duration, hresult]
          have hrun : ReaderRun limits keepAlive (read :: reads) started now rest _ _ :=
            .timedOut hcall hwait hresult
          rw [hduration] at hrun
          exact hrun
        · have hduration : read.duration wait = min read.elapsed wait :=
            Read.duration_of_ne (by simp [hresult]) wait
          have hrun : ReaderRun limits keepAlive (read :: reads) started now rest _ _ :=
            .failed hcall hwait hresult
          rw [hduration] at hrun
          exact hrun
        · have hduration : read.duration wait = min read.elapsed wait :=
            Read.duration_of_ne (by simp [hresult]) wait
          have hrun : ReaderRun limits keepAlive (read :: reads) started now rest _ _ :=
            .eof hcall hwait hresult
          rw [hduration] at hrun
          exact hrun
        · have hduration : read.duration wait = min read.elapsed wait :=
            Read.duration_of_ne (by simp [hresult]) wait
          have hrun := ReaderRun.chunk hcall hwait hresult (List.cons_ne_nil byte chunk)
            (ih (started.or (some (now + read.duration wait))) (now + read.duration wait)
              (rest ++ byte :: chunk))
          rw [hduration] at hrun
          exact hrun
    · exact .ready hcall

/-! ## Deadlines -/

/-- The timeout of a read when a request has started. -/
lemma nextWait_some_iff {limits : RequestLimits} {keepAlive : Bool} {startedAt now wait : ℕ} :
    nextWait limits keepAlive (some startedAt) now = .ok wait ↔
      wait = min limits.idleTimeout (limits.requestTimeout - (now - startedAt)) ∧ 0 < wait := by
  unfold nextWait
  simp only
  by_cases hover : limits.requestTimeout < now - startedAt
  · rw [if_pos hover]
    simp only [reduceCtorEq, false_iff]
    omega
  · rw [if_neg hover]
    by_cases hzero : min limits.idleTimeout (limits.requestTimeout - (now - startedAt)) = 0
    · rw [if_pos hzero]
      simp only [reduceCtorEq, false_iff]
      omega
    · rw [if_neg hzero, Except.ok.injEq]
      omega

/-- The time to wait for the first byte of a request. -/
def firstWait (limits : RequestLimits) (keepAlive : Bool) : ℕ :=
  if keepAlive then limits.keepAliveTimeout else limits.idleTimeout

/-- The timeout of a read when no request has started. -/
lemma nextWait_none_iff {limits : RequestLimits} {keepAlive : Bool} {now wait : ℕ} :
    nextWait limits keepAlive none now = .ok wait ↔
      wait = firstWait limits keepAlive ∧ 0 < wait := by
  unfold nextWait firstWait
  simp only
  generalize (if keepAlive = true then limits.keepAliveTimeout else limits.idleTimeout) = first
  by_cases hzero : first = 0
  · rw [if_pos hzero]
    simp only [reduceCtorEq, false_iff]
    omega
  · rw [if_neg hzero, Except.ok.injEq]
    omega

/-- Without time to wait for a request, the call ends idle. -/
lemma nextWait_none_eq_error {limits : RequestLimits} {keepAlive : Bool} {now : ℕ}
    {outcome : StreamRead Bytes} :
    nextWait limits keepAlive none now = .error outcome ↔
      firstWait limits keepAlive = 0 ∧ outcome = .idle := by
  unfold nextWait firstWait
  simp only
  generalize (if keepAlive = true then limits.keepAliveTimeout else limits.idleTimeout) = first
  by_cases hzero : first = 0
  · rw [if_pos hzero, Except.error.injEq]
    exact ⟨fun h => ⟨hzero, h.symm⟩, fun h => h.2.symm⟩
  · rw [if_neg hzero]
    simp only [reduceCtorEq, false_iff]
    exact fun h => hzero h.1

/-- Without a read the call ends idle when nothing has started, and with an error otherwise. -/
lemma nextWait_eq_error {limits : RequestLimits} {keepAlive : Bool} {started : Option ℕ} {now : ℕ}
    {outcome : StreamRead Bytes} (h : nextWait limits keepAlive started now = .error outcome) :
    started = none ∧ outcome = .idle ∨ ∃ response, outcome = .error response := by
  cases started with
  | none => exact .inl ⟨rfl, (nextWait_none_eq_error.1 h).2⟩
  | some startedAt =>
    unfold nextWait at h
    simp only at h
    split_ifs at h <;> exact .inr ⟨_, (Except.error.inj h).symm⟩

/-- A read takes no longer than its timeout. -/
lemma Read.duration_le (read : Read) (timeout : ℕ) : read.duration timeout ≤ timeout := by
  unfold Read.duration
  split
  · exact le_refl timeout
  · exact min_le_right _ _

/-- `finishRead` takes no time. -/
lemma now_finishRead (limits : RequestLimits) (unfinished : StatusCode) (reader : Reader) :
    (finishRead limits unfinished reader).2.now = reader.now := by
  unfold finishRead
  rcases takeFramedRequest reader.buffer limits true with ⟨status | _ | raw, rest⟩ <;> rfl

/-- `finishRead` returns what the framer takes at the end of the bytes. -/
lemma finishRead_eq_ready {limits : RequestLimits} {unfinished : StatusCode}
    {reader reader' : Reader} {raw : Bytes}
    (h : finishRead limits unfinished reader = (.ready raw, reader')) :
    ∃ rest, takeFramedRequest reader.buffer limits true = (.ok (some raw), rest) := by
  unfold finishRead at h
  rcases hcall : takeFramedRequest reader.buffer limits true with ⟨status | _ | raw', rest⟩
  · simp [hcall] at h
  · simp [hcall] at h
  · simp only [hcall, Prod.mk.injEq, StreamRead.ready.injEq] at h
    exact ⟨rest, by rw [h.1]⟩

/-- `finishRead` ends with a request or with an error. -/
lemma finishRead_not_idle {limits : RequestLimits} {unfinished : StatusCode}
    {reader reader' : Reader}
    {outcome : StreamRead Bytes}
    (h : finishRead limits unfinished reader = (outcome, reader')) :
    ¬ (outcome = .idle ∨ outcome = .closed) := by
  unfold finishRead at h
  have hfirst := congrArg Prod.fst h
  clear h
  revert hfirst
  rcases takeFramedRequest reader.buffer limits true with ⟨status | _ | raw, rest⟩ <;>
    · rintro hfirst (rfl | rfl) <;> cases hfirst

/-- The reads that one call makes, at most: one for each byte of the longest incomplete
request, and one more. -/
def turnReads (limits : RequestLimits) : ℕ := 4 * limits.headerBytes + limits.bodyBytes + 1

/-- `finishRead` makes no read. -/
lemma reads_finishRead (limits : RequestLimits) (unfinished : StatusCode) (reader : Reader) :
    (finishRead limits unfinished reader).2.reads = reader.reads := by
  unfold finishRead
  rcases takeFramedRequest reader.buffer limits true with ⟨status | _ | raw, rest⟩ <;> rfl

/-- No reads, no time. -/
@[simp] lemma totalTime_nil : totalTime [] = 0 := rfl

/-- The time of the first read, and of the others. -/
@[simp] lemma totalTime_issue (read : Read) (now timeout : ℕ) (issued : List IssuedRead) :
    totalTime (read.issue now timeout :: issued) = read.duration timeout + totalTime issued := rfl

namespace ReaderRun

variable {limits : RequestLimits} {keepAlive : Bool} {reads : List Read} {started : Option ℕ}
  {now : ℕ} {buffer : Bytes} {issued : List IssuedRead}
  {result : Option (StreamRead Bytes × Reader)}

/-- Every read has a timeout, and returns no later. -/
lemma timeout_pos (h : ReaderRun limits keepAlive reads started now buffer issued result) :
    ∀ read ∈ issued, 0 < read.timeout ∧ read.duration ≤ read.timeout := by
  have hissue : ∀ {started : Option ℕ} {now wait : ℕ} (read : Read),
      nextWait limits keepAlive started now = .ok wait →
        0 < (read.issue now wait).timeout ∧
          (read.issue now wait).duration ≤ (read.issue now wait).timeout := by
    intro started now wait read hwait
    refine ⟨?_, read.duration_le wait⟩
    cases started with
    | none => exact (nextWait_none_iff.1 hwait).2
    | some startedAt => exact (nextWait_some_iff.1 hwait).2
  induction h with
  | ready _ => simp
  | rejected _ => simp
  | overdue _ _ => simp
  | blocked _ _ => simp
  | eof _ hwait _ => exact List.forall_mem_singleton.2 (hissue _ hwait)
  | timedOut _ hwait _ => exact List.forall_mem_singleton.2 (hissue _ hwait)
  | failed _ hwait _ => exact List.forall_mem_singleton.2 (hissue _ hwait)
  | chunk _ hwait _ _ _ ih => exact List.forall_mem_cons.2 ⟨hissue _ hwait, ih⟩

/-- The clock at the end of a call: only reads take time. -/
lemma now_eq (h : ReaderRun limits keepAlive reads started now buffer issued result)
    {outcome : StreamRead Bytes} {reader : Reader} (hresult : result = some (outcome, reader)) :
    reader.now = now + totalTime issued := by
  induction h with
  | ready _ => cases hresult; rfl
  | rejected _ => cases hresult; rfl
  | overdue _ _ => cases hresult; rfl
  | blocked _ _ => cases hresult
  | @eof read reads started now wait buffer _ _ _ =>
    rw [totalTime_issue, totalTime_nil, Nat.add_zero]
    split_ifs at hresult
    · cases hresult; rfl
    · have hnow := now_finishRead limits .badRequest ⟨buffer, now + read.duration wait, reads⟩
      rw [Option.some.inj hresult] at hnow
      exact hnow
  | @timedOut read reads started now wait buffer _ _ _ =>
    rw [totalTime_issue, totalTime_nil, Nat.add_zero]
    split_ifs at hresult
    · cases hresult; rfl
    · have hnow := now_finishRead limits .requestTimeout ⟨buffer, now + read.duration wait, reads⟩
      rw [Option.some.inj hresult] at hnow
      exact hnow
  | failed _ _ _ => cases hresult; rfl
  | chunk _ _ _ _ _ ih =>
    rw [ih hresult, totalTime_issue]
    omega

/-- The reads of a request that has started take no longer than the time left for it.

**Proof sketch.** Induction along the run. The timeout of a read is at most the time left, and
behind the read what is left is shorter by the time it took. -/
lemma totalTime_le_of_started {startedAt : ℕ}
    (h : ReaderRun limits keepAlive reads started now buffer issued result)
    (hstarted : started = some startedAt) (hnow : startedAt ≤ now) :
    totalTime issued ≤ limits.requestTimeout - (now - startedAt) := by
  have hissue : ∀ {now wait : ℕ} (read : Read),
      nextWait limits keepAlive (some startedAt) now = .ok wait →
        read.duration wait ≤ limits.requestTimeout - (now - startedAt) := by
    intro now wait read hwait
    have hle := read.duration_le wait
    obtain ⟨hmin, -⟩ := nextWait_some_iff.1 hwait
    omega
  induction h with
  | ready _ => simp
  | rejected _ => simp
  | overdue _ _ => simp
  | blocked _ _ => simp
  | eof _ hwait _ =>
    subst hstarted
    exact hissue _ hwait
  | timedOut _ hwait _ =>
    subst hstarted
    exact hissue _ hwait
  | failed _ hwait _ =>
    subst hstarted
    exact hissue _ hwait
  | @chunk read _ started now wait _ _ _ _ _ hwait _ _ _ ih =>
    subst hstarted
    have hle := hissue read hwait
    have hrest := ih rfl (by omega)
    rw [totalTime_issue]
    omega

/-- All the reads of a call take no longer than the wait for the first byte and the time for the
request. -/
lemma totalTime_le (h : ReaderRun limits keepAlive reads none now buffer issued result) :
    totalTime issued ≤ firstWait limits keepAlive + limits.requestTimeout := by
  have hissue : ∀ {wait : ℕ} (read : Read),
      nextWait limits keepAlive none now = .ok wait →
        read.duration wait ≤ firstWait limits keepAlive := by
    intro wait read hwait
    have hle := read.duration_le wait
    obtain ⟨hfirst, -⟩ := nextWait_none_iff.1 hwait
    omega
  cases h with
  | ready _ => simp
  | rejected _ => simp
  | overdue _ _ => simp
  | blocked _ _ => simp
  | eof _ hwait _ => exact (hissue _ hwait).trans (Nat.le_add_right _ _)
  | timedOut _ hwait _ => exact (hissue _ hwait).trans (Nat.le_add_right _ _)
  | failed _ hwait _ => exact (hissue _ hwait).trans (Nat.le_add_right _ _)
  | @chunk read _ _ _ wait _ _ _ _ _ hwait _ _ hrun =>
    have hle := hissue read hwait
    have hrest := hrun.totalTime_le_of_started rfl le_rfl
    rw [totalTime_issue]
    omega

/-- A call that ends idle or closed leaves an empty buffer. -/
lemma buffer_eq_nil (h : ReaderRun limits keepAlive reads started now buffer issued result)
    (hstarted : started = none → buffer = []) {outcome : StreamRead Bytes} {reader : Reader}
    (hresult : result = some (outcome, reader))
    (houtcome : outcome = .idle ∨ outcome = .closed) : reader.buffer = [] := by
  induction h with
  | ready _ =>
    cases hresult
    rcases houtcome with h | h <;> cases h
  | rejected _ =>
    cases hresult
    rcases houtcome with h | h <;> cases h
  | overdue _ hwait =>
    cases hresult
    rcases nextWait_eq_error hwait with ⟨hnone, -⟩ | ⟨response, rfl⟩
    · exact hstarted hnone
    · rcases houtcome with h | h <;> cases h
  | blocked _ _ => cases hresult
  | @eof read reads started now wait buffer _ _ _ =>
    split_ifs at hresult with hempty
    · cases hresult
      exact hempty
    · exact absurd houtcome (finishRead_not_idle (Option.some.inj hresult))
  | @timedOut read reads started now wait buffer _ _ _ =>
    split_ifs at hresult with hnone
    · cases hresult
      exact hstarted hnone
    · exact absurd houtcome (finishRead_not_idle (Option.some.inj hresult))
  | failed _ _ _ =>
    cases hresult
    rcases houtcome with h | h <;> cases h
  | @chunk read _ started _ _ _ _ _ _ _ _ _ _ _ ih =>
    refine ih (fun hnone => ?_) hresult
    cases started <;> cases hnone

/-- The reads of a call are the first ones of the schedule; without a result, all of them. -/
lemma results_eq (h : ReaderRun limits keepAlive reads started now buffer issued result) :
    reads.map Read.result = issued.map IssuedRead.result ++
      ((result.map fun p => p.2.reads).getD []).map Read.result := by
  induction h with
  | ready _ => rfl
  | rejected _ => rfl
  | overdue _ _ => rfl
  | blocked _ _ => rfl
  | @eof read reads _ now wait buffer _ _ _ =>
    split_ifs
    · rfl
    · rw [Option.map_some, reads_finishRead]
      rfl
  | @timedOut read reads _ now wait buffer _ _ _ =>
    split_ifs
    · rfl
    · rw [Option.map_some, reads_finishRead]
      rfl
  | failed _ _ _ => rfl
  | chunk _ _ _ _ _ ih =>
    rw [List.map_cons, List.map_cons, ih]
    rfl

/-- A request that has started ends with a request or with an error. -/
lemma not_idle_of_started (h : ReaderRun limits keepAlive reads started now buffer issued result)
    (hstarted : started ≠ none) (hbuffer : buffer ≠ []) {outcome : StreamRead Bytes}
    {reader : Reader} (hresult : result = some (outcome, reader)) :
    ¬ (outcome = .idle ∨ outcome = .closed) := by
  induction h with
  | ready _ =>
    cases hresult
    simp
  | rejected _ =>
    cases hresult
    simp
  | overdue _ hwait =>
    cases hresult
    rcases nextWait_eq_error hwait with ⟨hnone, -⟩ | ⟨response, rfl⟩
    · exact absurd hnone hstarted
    · simp
  | blocked _ _ => cases hresult
  | eof _ _ _ =>
    rw [if_neg hbuffer] at hresult
    exact finishRead_not_idle (Option.some.inj hresult)
  | timedOut _ _ _ =>
    rw [if_neg hstarted] at hresult
    exact finishRead_not_idle (Option.some.inj hresult)
  | failed _ _ _ =>
    cases hresult
    simp
  | @chunk _ _ started _ _ _ chunk _ _ _ _ _ hne _ ih =>
    refine ih ?_ (List.append_ne_nil_of_right_ne_nil _ hne) hresult
    cases started <;> exact Option.some_ne_none _

/-- A call that ends idle or closed has read nothing. -/
lemma result_of_idle (h : ReaderRun limits keepAlive reads started now buffer issued result)
    {outcome : StreamRead Bytes} {reader : Reader} (hresult : result = some (outcome, reader))
    (houtcome : outcome = .idle ∨ outcome = .closed) :
    ∀ read ∈ issued, ∀ bytes, read.result = .ok bytes → bytes = [] := by
  cases h with
  | ready _ => simp
  | rejected _ => simp
  | overdue _ _ => simp
  | blocked _ _ => simp
  | eof _ _ hread =>
    intro read hmem bytes hbytes
    obtain rfl := List.mem_singleton.1 hmem
    exact (Except.ok.inj (hread.symm.trans hbytes)).symm
  | timedOut _ _ hread =>
    intro read hmem bytes hbytes
    obtain rfl := List.mem_singleton.1 hmem
    cases hread.symm.trans hbytes
  | failed _ _ hread =>
    intro read hmem bytes hbytes
    obtain rfl := List.mem_singleton.1 hmem
    cases hread.symm.trans hbytes
  | chunk _ _ _ hne hrun =>
    refine absurd houtcome (hrun.not_idle_of_started ?_ ?_ hresult)
    · cases started <;> exact Option.some_ne_none _
    · exact List.append_ne_nil_of_right_ne_nil _ hne

/-- **A call of the reader returns** after a bounded number of reads.

**Proof sketch.** Induction along the run. The call reads on only behind an incomplete request,
which is within its bound, and every read behind which it goes on makes it longer. -/
theorem returns (h : ReaderRun limits keepAlive reads started now buffer issued result)
    (hlimits : limits.headerBytes < usizeMax ∧ limits.bodyBytes < usizeMax)
    (hreads : turnReads limits ≤ buffer.length + reads.length) :
    ∃ outcome reader, result = some (outcome, reader) ∧
      reads.length ≤ reader.reads.length + (turnReads limits - buffer.length) := by
  have hincomplete : ∀ {buffer : Bytes},
      takeFramedRequest buffer limits false = (.ok none, buffer) →
      buffer.length < turnReads limits := by
    intro buffer hframe
    exact Nat.lt_succ_of_le (length_of_incomplete (.inr hlimits) hframe)
  have hfinish : ∀ (unfinished : StatusCode) (reader : Reader),
      reader.buffer.length < turnReads limits → ∃ outcome reader',
        some (finishRead limits unfinished reader) = some (outcome, reader') ∧
          reader.reads.length + 1 ≤
            reader'.reads.length + (turnReads limits - reader.buffer.length) := by
    intro unfinished reader hlt
    have hleft := reads_finishRead limits unfinished reader
    refine ⟨(finishRead limits unfinished reader).1, (finishRead limits unfinished reader).2,
      rfl, ?_⟩
    rw [hleft]
    omega
  induction h with
  | ready _ => exact ⟨_, _, rfl, Nat.le_add_right _ _⟩
  | rejected _ => exact ⟨_, _, rfl, Nat.le_add_right _ _⟩
  | overdue _ _ => exact ⟨_, _, rfl, Nat.le_add_right _ _⟩
  | blocked hframe _ =>
    have hlt := hincomplete hframe
    rw [List.length_nil] at hreads
    omega
  | @eof read reads _ now wait buffer hframe _ _ =>
    have hlt := hincomplete hframe
    rw [List.length_cons]
    by_cases hempty : buffer = []
    · rw [if_pos hempty]
      refine ⟨_, _, rfl, ?_⟩
      simp only
      omega
    · rw [if_neg hempty]
      exact hfinish .badRequest ⟨buffer, now + read.duration wait, reads⟩ hlt
  | @timedOut read reads started now wait buffer hframe _ _ =>
    have hlt := hincomplete hframe
    rw [List.length_cons]
    by_cases hstarted : started = none
    · rw [if_pos hstarted]
      refine ⟨_, _, rfl, ?_⟩
      simp only
      omega
    · rw [if_neg hstarted]
      exact hfinish .requestTimeout ⟨buffer, now + read.duration wait, reads⟩ hlt
  | @failed _ reads _ _ _ buffer hframe _ _ =>
    have hlt := hincomplete hframe
    rw [List.length_cons]
    refine ⟨_, _, rfl, ?_⟩
    simp only
    omega
  | @chunk _ reads _ _ _ buffer chunk _ _ hframe _ _ hne _ ih =>
    -- the buffer grows by at least one byte
    have hlt := hincomplete hframe
    have hpos := List.length_pos_of_ne_nil hne
    have hgrow : (buffer ++ chunk).length = buffer.length + chunk.length := List.length_append
    rw [List.length_cons] at hreads ⊢
    obtain ⟨outcome, reader, hresult, hleft⟩ := ih (by omega)
    exact ⟨outcome, reader, hresult, by omega⟩

end ReaderRun

/-- Every call of the reader is a run from its buffer. -/
lemma readRequest_run (limits : RequestLimits) (keepAlive : Bool) (reader : Reader) :
    ReaderRun limits keepAlive reader.reads (if reader.buffer = [] then none else some reader.now)
      reader.now reader.buffer (reader.issued limits keepAlive)
      (readRequest limits keepAlive reader) :=
  readLoop_run limits keepAlive reader.reads _ reader.now reader.buffer

/-- The reader reads a request and routes it. -/
lemma parseStream_eq_some_iff {env : Env H} {routes : Routes H U} {fileBases : List Str}
    {limits : RequestLimits} {keepAlive : Bool} {reader reader' : Reader}
    {outcome : StreamRead (Bytes × Routed H U)} :
    parseStream env routes fileBases limits keepAlive reader = some (outcome, reader') ↔
      ∃ read, readRequest limits keepAlive reader = some (read, reader') ∧
        outcome = read.map fun raw => (raw, parseRaw env raw routes fileBases) := by
  unfold parseStream
  rw [Option.map_eq_some_iff]
  constructor
  · intro h
    obtain ⟨⟨read, reader''⟩, hread, hresult⟩ := h
    obtain ⟨houtcome, rfl⟩ := Prod.mk.inj hresult
    exact ⟨read, hread, houtcome.symm⟩
  · intro h
    obtain ⟨read, hread, rfl⟩ := h
    exact ⟨(read, reader'), hread, rfl⟩

/-- **A slow client cannot hold the reader past its deadline.** Every read of a call has a timeout
that is not zero, and returns within it; all of them together take no longer than the time to wait
for the first byte, which is none when bytes are left over, and the time for the request. A call
that returns has taken its reads off the schedule, and the time they take together; if it ends
idle or closed, nothing was left over, nothing was read, and nothing is in the buffer. A call that
does not return has used up the schedule, and is blocked in its next read; this does not happen
when the schedule has as many reads as the longest incomplete request has bytes, so that a request
that has started ends with a request or with an error.

**Proof sketch.** The timeout of a read is at most the time left for the request since it has
started, and what a read takes is no longer left behind it. A request has started exactly when the
buffer is not empty. Every read behind which the call reads on makes the request longer, and an
incomplete request is within its bound. -/
theorem parseStream_deadline (env : Env H) (routes : Routes H U) (fileBases : List Str)
    (limits : RequestLimits) (keepAlive : Bool) (reader : Reader) :
    (∀ read ∈ reader.issued limits keepAlive, 0 < read.timeout ∧ read.duration ≤ read.timeout) ∧
    totalTime (reader.issued limits keepAlive) ≤
      (if reader.buffer ≠ [] then 0
        else if keepAlive then limits.keepAliveTimeout else limits.idleTimeout) +
      limits.requestTimeout ∧
    (∀ outcome reader', parseStream env routes fileBases limits keepAlive reader =
      some (outcome, reader') →
      reader.reads.map Read.result =
        (reader.issued limits keepAlive).map IssuedRead.result ++ reader'.reads.map Read.result ∧
      reader'.now = reader.now + totalTime (reader.issued limits keepAlive) ∧
      (outcome = .idle ∨ outcome = .closed → reader.buffer = [] ∧ reader'.buffer = [] ∧
        ∀ read ∈ reader.issued limits keepAlive, ∀ bytes, read.result = .ok bytes → bytes = [])) ∧
    (parseStream env routes fileBases limits keepAlive reader = none →
      reader.reads.map Read.result =
        (reader.issued limits keepAlive).map IssuedRead.result) ∧
    (limits.headerBytes < usizeMax ∧ limits.bodyBytes < usizeMax →
      turnReads limits ≤ reader.buffer.length + reader.reads.length →
      ∃ outcome reader', parseStream env routes fileBases limits keepAlive reader =
        some (outcome, reader')) := by
  have hrun := readRequest_run limits keepAlive reader
  have hreads := hrun.results_eq
  refine ⟨hrun.timeout_pos, ?_, ?_, fun hnone => ?_, fun hlimits henough => ?_⟩
  · by_cases hempty : reader.buffer = []
    · rw [if_pos hempty] at hrun
      rw [if_neg (not_not.2 hempty)]
      exact hrun.totalTime_le
    · rw [if_neg hempty] at hrun
      rw [if_pos hempty]
      have hle := hrun.totalTime_le_of_started rfl le_rfl
      omega
  · intro outcome reader' hresult
    obtain ⟨read, hread, rfl⟩ := parseStream_eq_some_iff.1 hresult
    rw [hread] at hreads
    refine ⟨hreads, hrun.now_eq hread, fun houtcome => ?_⟩
    have hended : read = .idle ∨ read = .closed := by
      cases read with
      | idle => exact .inl rfl
      | closed => exact .inr rfl
      | ready raw => rcases houtcome with h | h <;> cases h
      | error response => rcases houtcome with h | h <;> cases h
    have hempty : reader.buffer = [] := by
      by_contra hne
      rw [if_neg hne] at hrun
      exact hrun.not_idle_of_started (Option.some_ne_none _) hne hread hended
    exact ⟨hempty, hrun.buffer_eq_nil (fun _ => hempty) hread hended,
      hrun.result_of_idle hread hended⟩
  · unfold parseStream at hnone
    rw [Option.map_eq_none_iff.1 hnone] at hreads
    rw [hreads]
    exact List.append_nil _
  · obtain ⟨read, reader', hread, -⟩ := hrun.returns hlimits henough
    exact ⟨_, reader', parseStream_eq_some_iff.2 ⟨read, hread, rfl⟩⟩

/-! ## Silence -/

/-- When the reads deliver bytes. -/
def arrivalTimes (issued : List IssuedRead) : List ℕ :=
  issued.filterMap fun read =>
    match read.result with
    | .ok (_ :: _) => some (read.start + read.duration)
    | _ => none

/-- When the bytes of a request reach the reader: those that are left over from the last call when
the call begins, all others when their read returns. -/
def Reader.arrivals (limits : RequestLimits) (keepAlive : Bool) (reader : Reader) : List ℕ :=
  (if reader.buffer = [] then [] else [reader.now]) ++
    arrivalTimes (reader.issued limits keepAlive)

/-- A request that the framer only takes at the end of the bytes has no declared length, and a
method whose body then ends with them. -/
lemma unframed_of_idleEnd {limits : RequestLimits} {buffer raw rest : Bytes}
    (hwait : takeFramedRequest buffer limits false = (.ok none, buffer))
    (htake : takeFramedRequest buffer limits true = (.ok (some raw), rest)) :
    ∃ head body, BlankSplit raw head body ∧ extractBodyHeaders head = .ok .none ∧
      unframedBody (methodToken head) = true := by
  obtain ⟨head, tail, framing, body, hsplit, hlength, hframing, rfl, hbody⟩ :=
    takeFramedRequest_eq_some_iff.1 htake
  have hnot : ¬ BodyTaken limits false head tail body rest framing := by
    intro htaken
    have hsome := takeFramedRequest_eq_some_iff.2
      ⟨head, tail, framing, body, hsplit, hlength, hframing, rfl, htaken⟩
    rw [hwait] at hsome
    cases hsome
  cases framing with
  | none =>
    rcases hbody with ⟨hmethod, -⟩ | hframed
    · exact ⟨head, body, hsplit.replace body, hframing, hmethod⟩
    · exact absurd (.inr hframed) hnot
  | length n => exact absurd hbody hnot
  | chunked => exact absurd hbody hnot

/-- Bytes arrive when their read returns. -/
lemma arrivalTimes_cons_of_ok {read : Read} {now wait : ℕ} {chunk : Bytes}
    (hresult : read.result = .ok chunk) (hne : chunk ≠ []) (issued : List IssuedRead) :
    arrivalTimes (read.issue now wait :: issued) =
      (now + read.duration wait) :: arrivalTimes issued := by
  obtain ⟨byte, bytes, rfl⟩ := List.exists_cons_of_ne_nil hne
  apply List.filterMap_cons_some
  simp only [Read.issue, hresult]

/-- After a read that delivers bytes, the read that times out is a later one. -/
lemma getLast?_issued_of_ok {read : Read} {now wait : ℕ} {bytes : Bytes}
    {issued : List IssuedRead} {last : IssuedRead} (hresult : read.result = .ok bytes)
    (hlast : (read.issue now wait :: issued).getLast? = some last)
    (htimeout : last.result = .error .timedOut) : issued.getLast? = some last := by
  cases issued with
  | nil =>
    cases hlast
    rw [Read.issue, hresult] at htimeout
    cases htimeout
  | cons next later =>
    rw [List.getLast?_cons_cons] at hlast
    exact hlast

/-- How a request ends with the client's silence: its bytes arrived from `first` to `last`, it has
no declared length, and the last read waited for the idle timeout or for the rest of the time for
the request, whichever was shorter. -/
structure EndsInSilence (limits : RequestLimits) (first last : ℕ) (raw : Bytes)
    (reader : Reader) : Prop where
  unframed : ∃ head body, BlankSplit raw head body ∧ extractBodyHeaders head = .ok .none ∧
    unframedBody (methodToken head) = true
  order : first ≤ last
  waits : 0 < min limits.idleTimeout (limits.requestTimeout - (last - first))
  now : reader.now = last + min limits.idleTimeout (limits.requestTimeout - (last - first))

/-- What is left of a request that has started ends with silence when its last read times out.

**Proof sketch.** Induction along the run. A read that delivers bytes moves the last arrival to its
return; the read that times out was issued at the last arrival. -/
lemma ReaderRun.endsInSilence {limits : RequestLimits} {keepAlive : Bool} {reads : List Read}
    {started : Option ℕ} {now startedAt : ℕ} {buffer raw : Bytes} {issued : List IssuedRead}
    {result : Option (StreamRead Bytes × Reader)} {reader : Reader} {last : IssuedRead}
    (h : ReaderRun limits keepAlive reads started now buffer issued result)
    (hstarted : started = some startedAt) (hnow : startedAt ≤ now)
    (hresult : result = some (.ready raw, reader)) (hlast : issued.getLast? = some last)
    (htimeout : last.result = .error .timedOut) :
    EndsInSilence limits startedAt ((arrivalTimes issued).getLastD now) raw reader ∧
      now ≤ (arrivalTimes issued).getLastD now ∧
      ∀ t ∈ arrivalTimes issued, t ≤ (arrivalTimes issued).getLastD now := by
  induction h with
  | ready _ => cases hlast
  | rejected _ => cases hlast
  | overdue _ _ => cases hlast
  | blocked _ _ => cases hlast
  | eof _ _ hread => cases getLast?_issued_of_ok hread hlast htimeout
  | failed _ _ hread =>
    cases hresult
  | @timedOut read reads started now wait buffer hframe hwait hread =>
    subst hstarted
    obtain ⟨hmin, hpos⟩ := nextWait_some_iff.1 hwait
    have hduration : read.duration wait = wait := by simp only [Read.duration, hread]
    have hnone : arrivalTimes [read.issue now wait] = [] := by
      simp [arrivalTimes, Read.issue, hread]
    rw [if_neg (Option.some_ne_none startedAt), Option.some.injEq] at hresult
    have hclock := now_finishRead limits .requestTimeout ⟨buffer, now + read.duration wait, reads⟩
    rw [hresult] at hclock
    rw [hnone, List.getLastD_nil]
    refine ⟨⟨?_, hnow, by omega, ?_⟩, le_rfl, by simp⟩
    · obtain ⟨rest, htake⟩ := finishRead_eq_ready hresult
      exact unframed_of_idleEnd hframe htake
    · rw [← hmin, ← hduration]
      exact hclock
  | @chunk read reads started now wait buffer chunk issued result _ hwait hread hne _ ih =>
    subst hstarted
    have hlater : issued.getLast? = some last := getLast?_issued_of_ok hread hlast htimeout
    obtain ⟨hsilence, hle, hall⟩ := ih rfl (by omega) hresult hlater
    rw [arrivalTimes_cons_of_ok hread hne, List.getLastD_cons]
    refine ⟨hsilence, by omega, ?_⟩
    intro t ht
    rcases List.mem_cons.1 ht with rfl | ht
    · exact hle
    · exact hall t ht

/-- So does a call that waits for the first byte of a request. -/
lemma ReaderRun.endsInSilence_of_none {limits : RequestLimits} {keepAlive : Bool}
    {reads : List Read} {started : Option ℕ} {now : ℕ} {buffer raw : Bytes}
    {issued : List IssuedRead} {result : Option (StreamRead Bytes × Reader)} {reader : Reader}
    {last : IssuedRead} (h : ReaderRun limits keepAlive reads started now buffer issued result)
    (hstarted : started = none) (hresult : result = some (.ready raw, reader))
    (hlast : issued.getLast? = some last) (htimeout : last.result = .error .timedOut) :
    ∃ first rest, arrivalTimes issued = first :: rest ∧
      EndsInSilence limits first (rest.getLastD first) raw reader ∧
      ∀ t ∈ first :: rest, t ≤ rest.getLastD first := by
  cases h with
  | ready _ => cases hlast
  | rejected _ => cases hlast
  | overdue _ _ => cases hlast
  | blocked _ _ => cases hlast
  | eof _ _ hread => cases getLast?_issued_of_ok hread hlast htimeout
  | failed _ _ _ => cases hresult
  | timedOut _ _ _ =>
    rw [if_pos hstarted] at hresult
    cases hresult
  | @chunk read _ _ _ wait _ _ issued _ _ _ hread hne hrun =>
    subst hstarted
    have hlater : issued.getLast? = some last := getLast?_issued_of_ok hread hlast htimeout
    obtain ⟨hsilence, hle, hall⟩ := hrun.endsInSilence rfl le_rfl hresult hlater htimeout
    refine ⟨_, _, arrivalTimes_cons_of_ok hread hne _, hsilence, ?_⟩
    intro t ht
    rcases List.mem_cons.1 ht with rfl | ht
    · exact hle
    · exact hall t ht

/-- A call whose last read times out ends with silence, if it returns a request. -/
lemma readRequest_endsInSilence {limits : RequestLimits} {keepAlive : Bool}
    {reader reader' : Reader} {raw : Bytes} {last : IssuedRead}
    (hready : readRequest limits keepAlive reader = some (.ready raw, reader'))
    (hlast : (reader.issued limits keepAlive).getLast? = some last)
    (htimeout : last.result = .error .timedOut) :
    ∃ first final, (reader.arrivals limits keepAlive).head? = some first ∧
      (reader.arrivals limits keepAlive).getLast? = some final ∧
      EndsInSilence limits first final raw reader' ∧
      ∀ t ∈ reader.arrivals limits keepAlive, t ≤ final := by
  have hrun := readRequest_run limits keepAlive reader
  have hend : ∀ (first : ℕ) (rest : List ℕ),
      (first :: rest).getLast? = some (rest.getLastD first) := by
    intro first rest
    rw [List.getLast?_cons, List.getLastD_eq_getLast?]
  unfold Reader.arrivals
  by_cases hempty : reader.buffer = []
  · rw [if_pos hempty] at hrun ⊢
    obtain ⟨first, rest, harrivals, hsilence, hall⟩ :=
      hrun.endsInSilence_of_none rfl hready hlast htimeout
    rw [harrivals]
    exact ⟨first, _, rfl, hend first rest, hsilence, hall⟩
  · rw [if_neg hempty] at hrun ⊢
    obtain ⟨hsilence, hle, hall⟩ := hrun.endsInSilence rfl le_rfl hready hlast htimeout
    refine ⟨reader.now, _, rfl, hend _ _, hsilence, ?_⟩
    intro t ht
    rcases List.mem_cons.1 ht with rfl | ht
    · exact hle
    · exact hall t ht

/-- **When a body without a declared length is not cut short by the total deadline.** A call that
returns a request because a read timed out has read a request without a declared length, whose
body ends with the client's silence. The client was silent for the whole idle timeout exactly when
its last bytes arrived at least that long before the total deadline, which runs from the first
ones.

**Proof sketch.** The last read was issued when the last bytes arrived, and waited for the idle
timeout or for the rest of the time for the request, whichever was shorter. -/
theorem quiet_iff {env : Env H} {routes : Routes H U} {fileBases : List Str}
    {limits : RequestLimits} {keepAlive : Bool} {reader reader' : Reader} {raw : Bytes}
    {routed : Routed H U} {last : IssuedRead}
    (hready : parseStream env routes fileBases limits keepAlive reader =
      some (.ready (raw, routed), reader'))
    (hlast : (reader.issued limits keepAlive).getLast? = some last)
    (htimeout : last.result = .error .timedOut) :
    (∃ head body, BlankSplit raw head body ∧ extractBodyHeaders head = .ok .none ∧
      unframedBody (methodToken head) = true) ∧
    ∃ first final, (reader.arrivals limits keepAlive).head? = some first ∧
      (reader.arrivals limits keepAlive).getLast? = some final ∧
      ((∀ t ∈ reader.arrivals limits keepAlive, t + limits.idleTimeout ≤ reader'.now) ↔
        final + limits.idleTimeout ≤ first + limits.requestTimeout) := by
  obtain ⟨read, hread, houtcome⟩ := parseStream_eq_some_iff.1 hready
  cases read with
  | idle => cases houtcome
  | closed => cases houtcome
  | error response => cases houtcome
  | ready raw' =>
    cases houtcome
    obtain ⟨first, final, hfirst, hfinal, hsilence, hall⟩ :=
      readRequest_endsInSilence hread hlast htimeout
    obtain ⟨hunframed, horder, hwaits, hnow⟩ := hsilence
    refine ⟨hunframed, first, final, hfirst, hfinal, ?_⟩
    constructor
    · intro hquiet
      have hlate := hquiet final (List.mem_of_getLast? hfinal)
      omega
    · intro hdeadline t ht
      have hle := hall t ht
      omega

/-! ### A body that trickles in -/

/-- The request a call returns, if it does. -/
def StreamRead.request {α : Type} : StreamRead α → Option α
  | .ready request => some request
  | _ => none

/-- What a call returns, read off its request and its clock. -/
lemma exists_ready {limits : RequestLimits} {keepAlive : Bool} {reader : Reader} {raw : Bytes}
    {now : ℕ} (h : (readRequest limits keepAlive reader).map (fun p => (p.1.request, p.2.now)) =
      some (some raw, now)) :
    ∃ reader', readRequest limits keepAlive reader = some (.ready raw, reader') ∧
      reader'.now = now := by
  obtain ⟨⟨outcome, reader'⟩, hread, hresult⟩ := Option.map_eq_some_iff.1 h
  obtain ⟨hrequest, hnow⟩ := Prod.mk.inj hresult
  cases outcome with
  | ready raw' =>
    obtain rfl := Option.some.inj hrequest
    exact ⟨reader', hread, hnow⟩
  | idle => cases hrequest
  | closed => cases hrequest
  | error response => cases hrequest

/-- Half a second between two bytes, one second for a request. -/
def tightLimits : RequestLimits :=
  { RequestLimits.default with idleTimeout := 500, requestTimeout := 1000 }

/-- A `POST` without a declared length, and the first byte of its body. -/
def trickleHead : Bytes := Utf8.encode "POST / HTTP/1.1\r\n\r\na".toList

/-- A client that sends the head and a byte at once, and then these bytes at their gaps. -/
def trickle (later : List (ℕ × UInt8)) : Reader where
  buffer := []
  now := 0
  reads := ⟨0, .ok trickleHead⟩ :: later.map (fun p => ⟨p.1, .ok [p.2]⟩) ++
    [⟨500, .error .timedOut⟩]

/-- What such a call returns, and its last read, when it times out. -/
lemma trickle_returns (later : List (ℕ × UInt8)) (raw : Bytes) (now : ℕ)
    (hread : (readRequest tightLimits false (trickle later)).map
      (fun p => (p.1.request, p.2.now)) = some (some raw, now))
    (hlast : ((trickle later).issued tightLimits false).getLast?.map
      (fun read => match read.result with | .error error => some error | .ok _ => none) =
        some (some ReadError.timedOut)) :
    ∃ reader' last, parseStream (constantEnv Response.new) (∅ : Routes Unit Unit) [] tightLimits
        false (trickle later) =
      some (.ready (raw, parseRaw (constantEnv Response.new) raw (∅ : Routes Unit Unit) []),
        reader') ∧
      reader'.now = now ∧ ((trickle later).issued tightLimits false).getLast? = some last ∧
      last.result = .error .timedOut := by
  obtain ⟨reader', hready, hnow⟩ := exists_ready hread
  obtain ⟨last, hmem, hresult⟩ := Option.map_eq_some_iff.1 hlast
  refine ⟨reader', last, parseStream_eq_some_iff.2 ⟨_, hready, rfl⟩, hnow, hmem, ?_⟩
  cases hcase : last.result with
  | ok bytes =>
    rw [hcase] at hresult
    cases hresult
  | error error =>
    rw [hcase] at hresult
    rw [Option.some.inj hresult]

/-- A client that sends all its bytes at once is given the whole idle timeout. -/
theorem trickle_quiet :
    ∃ reader', parseStream (constantEnv Response.new) (∅ : Routes Unit Unit) [] tightLimits false
        (trickle []) =
      some (.ready (trickleHead, parseRaw (constantEnv Response.new) trickleHead
        (∅ : Routes Unit Unit) []), reader') ∧
      ∀ t ∈ (trickle []).arrivals tightLimits false, t + 500 ≤ reader'.now := by
  obtain ⟨reader', last, hready, -, hlast, htimeout⟩ :=
    trickle_returns [] trickleHead 500 (by decide) (by decide)
  obtain ⟨-, first, final, hfirst, hfinal, hiff⟩ := quiet_iff hready hlast htimeout
  have harrivals : (trickle []).arrivals tightLimits false = [0] := by decide
  rw [harrivals] at hfirst hfinal
  cases hfirst
  cases hfinal
  exact ⟨reader', hready, hiff.2 (by decide)⟩

/-- A client whose bytes arrive in time, 400 milliseconds apart, is cut off when the second is
over, and its request is handed over without the bytes that are still to come. -/
theorem trickle_cut_short :
    ¬ ∀ (env : Env Unit) (routes : Routes Unit Unit) (fileBases : List Str)
      (limits : RequestLimits) (keepAlive : Bool) (reader reader' : Reader) (raw : Bytes)
      (routed : Routed Unit Unit) (last : IssuedRead), 0 < limits.idleTimeout →
      0 < limits.requestTimeout → 0 < limits.keepAliveTimeout →
      parseStream env routes fileBases limits keepAlive reader =
        some (.ready (raw, routed), reader') →
      (reader.issued limits keepAlive).getLast? = some last → last.result = .error .timedOut →
      ∀ t ∈ reader.arrivals limits keepAlive, t + limits.idleTimeout ≤ reader'.now := by
  intro h
  obtain ⟨reader', last, hready, hnow, hlast, htimeout⟩ :=
    trickle_returns [(400, 98), (400, 99)] (trickleHead ++ [98, 99]) 1000 (by decide)
      (by decide)
  have hquiet := h _ _ _ _ _ _ _ _ _ _ (by decide) (by decide) (by decide) hready hlast htimeout
  have harrivals : (trickle [(400, 98), (400, 99)]).arrivals tightLimits false = [0, 400, 800] := by
    decide
  have hlate := hquiet 800 (by rw [harrivals]; simp)
  rw [hnow] at hlate
  revert hlate
  decide

end Httpageboy
