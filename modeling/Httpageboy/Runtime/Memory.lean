import Httpageboy.Framing.Bounds
import Httpageboy.Framing.Segmentation
import Httpageboy.Runtime.Handover

set_option relaxedAutoImplicit false
set_option autoImplicit false

/-!
# The receive buffer of a connection

A connection keeps one receive buffer for all its requests. `heldBuffers` lists the contents of
the buffer during one call of the reader, one entry for each time the framer is asked; between two
of them the buffer was an incomplete request, and one read was appended.

## Main definitions

* `Httpageboy.heldBuffers` — the contents of the buffer during a call of the reader.
* `Httpageboy.Server.Visits` — the connection loop comes back to its head in some state.

## Main results

* `Httpageboy.buffer_bounded` — the bounds on an incomplete request, on a complete one, and on the
  buffer during every run of the connection loop.
-/

namespace Httpageboy

open Search

variable {H U : Type}

/-- The size of the array a read fills. -/
def readSize : ℕ := 4096

/-- The contents of the buffer at each turn of the loop of `readLoop`. -/
def heldBuffers (limits : RequestLimits) (keepAlive : Bool) :
    List Read → Option ℕ → ℕ → Bytes → List Bytes
  | reads, started, now, buffer =>
    buffer ::
      match takeFramedRequest buffer limits false with
      | (.ok none, buffer) =>
        match nextWait limits keepAlive started now with
        | .error _ => []
        | .ok wait =>
          match reads with
          | [] => []
          | read :: reads =>
            match read.result with
            | .ok [] => []
            | .ok chunk =>
              let now := now + min read.elapsed wait
              heldBuffers limits keepAlive reads (started.or (some now)) now (buffer ++ chunk)
            | .error _ => []
      | _ => []

/-- The contents of the buffer during a call of the reader. -/
def Reader.held (limits : RequestLimits) (keepAlive : Bool) (reader : Reader) : List Bytes :=
  let started := if reader.buffer = [] then none else some reader.now
  heldBuffers limits keepAlive reader.reads started reader.now reader.buffer

/-- The connection loop comes back to its head in some state, after any number of requests. -/
def Server.Visits (server : Server H U) (env : ℕ → Env H) (conn conn' : Conn) : Prop :=
  Loop.Reaches (server.turn env) Turn.continues conn conn'

/-! ## One call of the reader -/

/-- The bound on an incomplete request. -/
def incompleteBound (limits : RequestLimits) : ℕ := 4 * limits.headerBytes + limits.bodyBytes

/-- The framer leaves no more than there was. -/
lemma length_takeFramedRequest_le (buffer : Bytes) (limits : RequestLimits) (idleEnd : Bool) :
    (takeFramedRequest buffer limits idleEnd).2.length ≤ buffer.length := by
  rcases takeFramedRequest_unchanged buffer limits idleEnd with ⟨raw, hraw⟩ | hrest
  · exact (length_lt_of_takeFramedRequest (Prod.ext hraw rfl)).le
  · rw [hrest]

/-- Behind one more read, an incomplete request is within the bound on the buffer. -/
lemma length_append_read {limits : RequestLimits} {buffer : Bytes} {read : Read}
    (hword : WordSized limits buffer) (hread : read.bytes.length ≤ readSize)
    (h : (takeFramedRequest buffer limits false).1 = .ok none) :
    (buffer ++ read.bytes).length ≤ incompleteBound limits + readSize := by
  have hbuffer := length_of_incomplete hword (Prod.ext h rfl)
  rw [List.length_append]
  unfold incompleteBound
  omega

/-- What `finishRead` leaves in the buffer is what the framer leaves. -/
lemma buffer_finishRead (limits : RequestLimits) (unfinished : StatusCode) (reader : Reader) :
    (finishRead limits unfinished reader).2.buffer =
      (takeFramedRequest reader.buffer limits true).2 := by
  unfold finishRead
  rcases takeFramedRequest reader.buffer limits true with ⟨status | _ | raw, rest⟩ <;> rfl

/-- A call of the reader ends with the framer on one of the buffers it held.

**Proof sketch.** Induction on the reads. Every way out of the loop is behind a call of the framer
on the buffer of this turn, or behind one more with `idle_end`. -/
lemma readLoop_held {limits : RequestLimits} {keepAlive : Bool} {reads : List Read}
    {started : Option ℕ} {now : ℕ} {buffer : Bytes} {outcome : StreamRead Bytes} {reader : Reader}
    (h : readLoop limits keepAlive reads started now buffer = some (outcome, reader)) :
    ∃ held ∈ heldBuffers limits keepAlive reads started now buffer,
      ∃ idleEnd, reader.buffer = (takeFramedRequest held limits idleEnd).2 := by
  induction reads generalizing started now buffer with
  | nil =>
    unfold readLoop at h
    unfold heldBuffers
    refine ⟨buffer, List.mem_cons_self, false, ?_⟩
    rcases hcall : takeFramedRequest buffer limits false with ⟨status | _ | raw, rest⟩
    · simp only [hcall, Option.some.injEq, Prod.mk.injEq] at h
      rw [← h.2]
    · simp only [hcall] at h
      cases hwait : nextWait limits keepAlive started now with
      | error outcome =>
        simp only [hwait, Option.some.injEq, Prod.mk.injEq] at h
        rw [← h.2]
      | ok wait => simp [hwait] at h
    · simp only [hcall, Option.some.injEq, Prod.mk.injEq] at h
      rw [← h.2]
  | cons read reads ih =>
    unfold readLoop at h
    unfold heldBuffers
    rcases hcall : takeFramedRequest buffer limits false with ⟨status | _ | raw, rest⟩
    · simp only [hcall, Option.some.injEq, Prod.mk.injEq] at h
      exact ⟨buffer, List.mem_cons_self, false, by rw [← h.2, hcall]⟩
    · obtain ⟨-, rfl⟩ := frame_eq_none hcall
      simp only [hcall] at h ⊢
      have hend : ∀ reader : Reader, reader.buffer = rest →
          ∃ idleEnd, reader.buffer = (takeFramedRequest rest limits idleEnd).2 :=
        fun reader hreader => ⟨false, by rw [hreader, hcall]⟩
      cases hwait : nextWait limits keepAlive started now with
      | error outcome =>
        simp only [hwait, Option.some.injEq, Prod.mk.injEq] at h
        exact ⟨rest, List.mem_cons_self, hend reader (by rw [← h.2])⟩
      | ok wait =>
        simp only [hwait] at h ⊢
        split at h
        · by_cases hempty : rest = []
          · rw [if_pos hempty, Option.some.injEq, Prod.mk.injEq] at h
            exact ⟨rest, List.mem_cons_self, hend reader (by rw [← h.2])⟩
          · rw [if_neg hempty, Option.some.injEq] at h
            have hbuffer := congrArg (fun result => result.2.buffer) h
            rw [buffer_finishRead] at hbuffer
            exact ⟨rest, List.mem_cons_self, true, hbuffer.symm⟩
        · next chunk hne hresult =>
          obtain ⟨held, hmem, hheld⟩ := ih h
          refine ⟨held, List.mem_cons_of_mem _ ?_, hheld⟩
          simp only [hresult]
          cases chunk with
          | nil => exact absurd rfl hne
          | cons byte chunk => exact hmem
        · by_cases hstarted : started = none
          · rw [if_pos hstarted, Option.some.injEq, Prod.mk.injEq] at h
            exact ⟨rest, List.mem_cons_self, hend reader (by rw [← h.2])⟩
          · rw [if_neg hstarted, Option.some.injEq] at h
            have hbuffer := congrArg (fun result => result.2.buffer) h
            rw [buffer_finishRead] at hbuffer
            exact ⟨rest, List.mem_cons_self, true, hbuffer.symm⟩
        · rw [Option.some.injEq, Prod.mk.injEq] at h
          exact ⟨rest, List.mem_cons_self, hend reader (by rw [← h.2])⟩
    · simp only [hcall, Option.some.injEq, Prod.mk.injEq] at h
      exact ⟨buffer, List.mem_cons_self, false, by rw [← h.2, hcall]⟩

section Bounded

variable {limits : RequestLimits} (hlimits : limits.headerBytes < usizeMax ∧
  limits.bodyBytes < usizeMax)

include hlimits

/-- **The buffer stays within the bound during a call of the reader.**

**Proof sketch.** Induction on the reads. The call goes on only behind an incomplete request,
which is within its own bound, and one read is appended to it. -/
lemma length_of_mem_heldBuffers {keepAlive : Bool} {reads : List Read}
    (hreads : ∀ read ∈ reads, read.bytes.length ≤ readSize) {started : Option ℕ} {now : ℕ}
    {buffer : Bytes} (hbuffer : buffer.length ≤ incompleteBound limits + readSize)
    {held : Bytes} (h : held ∈ heldBuffers limits keepAlive reads started now buffer) :
    held.length ≤ incompleteBound limits + readSize := by
  induction reads generalizing started now buffer with
  | nil =>
    unfold heldBuffers at h
    rcases List.mem_cons.1 h with rfl | h
    · exact hbuffer
    · split at h
      · split at h <;> cases h
      · cases h
  | cons read reads ih =>
    obtain ⟨hread, hlater⟩ := List.forall_mem_cons.1 hreads
    unfold heldBuffers at h
    rcases List.mem_cons.1 h with rfl | h
    · exact hbuffer
    rcases hcall : takeFramedRequest buffer limits false with ⟨status | _ | raw, rest⟩
    · simp [hcall] at h
    · obtain ⟨-, rfl⟩ := frame_eq_none hcall
      simp only [hcall] at h
      cases hwait : nextWait limits keepAlive started now with
      | error outcome => simp [hwait] at h
      | ok wait =>
        simp only [hwait] at h
        split at h
        · cases h
        · next chunk hne hresult =>
          have hbytes : read.bytes = chunk := by rw [Read.bytes, hresult]
          have happend := length_append_read (.inr hlimits) hread (congrArg Prod.fst hcall)
          rw [hbytes] at happend
          exact ih hlater happend h
        · cases h
    · simp [hcall] at h

/-- What is left in the buffer behind a call of the reader is within the bound. -/
lemma length_of_readLoop {keepAlive : Bool} {reads : List Read}
    (hreads : ∀ read ∈ reads, read.bytes.length ≤ readSize) {started : Option ℕ} {now : ℕ}
    {buffer : Bytes} {outcome : StreamRead Bytes} {reader : Reader}
    (hbuffer : buffer.length ≤ incompleteBound limits + readSize)
    (h : readLoop limits keepAlive reads started now buffer = some (outcome, reader)) :
    reader.buffer.length ≤ incompleteBound limits + readSize := by
  obtain ⟨held, hheld, idleEnd, hleft⟩ := readLoop_held h
  rw [hleft]
  exact (length_takeFramedRequest_le held limits idleEnd).trans
    (length_of_mem_heldBuffers hlimits hreads hbuffer hheld)

/-- **The buffer is within the bound whenever the connection loop is at its head**, and the reads
to come are some of those of the connection. -/
lemma Server.Visits.bounded {server : Server H U} {env : ℕ → Env H} {now : ℕ} {reads : List Read}
    (hserver : server.limits = limits) (hreads : ∀ read ∈ reads, read.bytes.length ≤ readSize)
    {conn : Conn} (h : server.Visits env (.start now reads) conn) :
    conn.reader.buffer.length ≤ incompleteBound limits + readSize ∧
      ∀ read ∈ conn.reader.reads, read.bytes.length ≤ readSize := by
  refine Loop.Reaches.invariant (I := fun conn : Conn =>
    conn.reader.buffer.length ≤ incompleteBound limits + readSize ∧
      ∀ read ∈ conn.reader.reads, read.bytes.length ≤ readSize) h ⟨Nat.zero_le _, hreads⟩ ?_
  rintro conn turn conn' ⟨hbuffer, hconn⟩ hturn hcont
  rcases Server.turn_cases hturn with ⟨rfl, -⟩ | ⟨response, rfl, -⟩ | ⟨raw, hready, -⟩
  · cases hcont
  · cases hcont
  · unfold readRequest at hready
    rw [hserver] at hready
    obtain ⟨used, wire, hused, -⟩ := readLoop_ready hready
    refine ⟨length_of_readLoop hlimits hconn hbuffer hready, fun read hread => ?_⟩
    apply hconn
    rw [hused]
    exact List.mem_append_right used hread

end Bounded

/-! ## Runs -/

/-- **Bounded memory per connection.** A buffer without a complete request is no longer than four
times the header limit and the body limit; the head and the body of a request that is taken are
within their limits. Over every run of the connection loop, for every behaviour of the client and
of the handlers and any number of requests, the buffer never exceeds the first bound by more than
one read.

**Proof sketch.** What the framer leaves behind is bounded by the limits (`length_of_incomplete`,
`length_of_complete`); a read adds at most its size, and then the framer is asked again. -/
theorem buffer_bounded :
    (∀ (limits : RequestLimits) (buffer rest : Bytes) (idleEnd : Bool),
      WordSized limits buffer → takeFramedRequest buffer limits idleEnd = (.ok none, rest) →
      buffer.length ≤ 4 * limits.headerBytes + limits.bodyBytes) ∧
    (∀ (limits : RequestLimits) (buffer raw rest : Bytes) (idleEnd : Bool),
      WordSized limits buffer →
      takeFramedRequest buffer limits idleEnd = (.ok (some raw), rest) →
      ∃ head body, BlankSplit raw head body ∧
        (Utf8.encode head ++ crlfcrlf).length ≤ limits.headerBytes ∧
        body.length ≤ limits.bodyBytes) ∧
    ∀ (server : Server H U) (env : ℕ → Env H) (now : ℕ) (reads : List Read) (conn : Conn),
      (∀ read ∈ reads, read.bytes.length ≤ readSize) →
      server.Visits env (.start now reads) conn →
      ∀ held ∈ conn.reader.held server.limits (0 < conn.handled),
        WordSized server.limits held →
        held.length ≤ 4 * server.limits.headerBytes + server.limits.bodyBytes + 4096 := by
  refine ⟨fun limits buffer rest idleEnd => length_of_incomplete,
    fun limits buffer raw rest idleEnd => length_of_complete, ?_⟩
  intro server env now reads conn hreads hvisits held hheld hword
  by_cases hlimits : server.limits.headerBytes < usizeMax ∧ server.limits.bodyBytes < usizeMax
  · obtain ⟨hbuffer, hconn⟩ := hvisits.bounded hlimits rfl hreads
    exact length_of_mem_heldBuffers hlimits hconn hbuffer hheld
  · -- a limit that no vector reaches
    rcases hword with hlength | hboth
    · omega
    · exact absurd hboth hlimits

/-- The bounds for a short request, and for a front of it. -/
theorem buffer_bounded_shortRequest :
    (shortRequest.take 10).length ≤
      4 * RequestLimits.default.headerBytes + RequestLimits.default.bodyBytes ∧
    (∃ head body, BlankSplit shortRequest head body ∧
      (Utf8.encode head ++ crlfcrlf).length ≤ RequestLimits.default.headerBytes ∧
      body.length ≤ RequestLimits.default.bodyBytes) ∧
    ∀ held ∈ (Reader.mk [] 0 [⟨0, .ok shortRequest⟩]).held RequestLimits.default false,
      held.length ≤
        4 * RequestLimits.default.headerBytes + RequestLimits.default.bodyBytes + 4096 := by
  have hword : ∀ buffer, WordSized RequestLimits.default buffer := fun buffer => .inr (by decide)
  have hpart : takeFramedRequest (shortRequest.take 10) RequestLimits.default false =
      (.ok none, shortRequest.take 10) := by decide
  have hwhole : takeFramedRequest shortRequest RequestLimits.default false =
      (.ok (some shortRequest), []) := by decide
  obtain ⟨hincomplete, hcomplete, hheld⟩ := buffer_bounded (H := Unit) (U := Unit)
  refine ⟨hincomplete _ _ _ _ (hword _) hpart, hcomplete _ _ _ _ _ (hword _) hwhole, ?_⟩
  intro held hmem
  refine hheld (rootServer none) (fun _ => constantEnv Response.new) 0 [⟨0, .ok shortRequest⟩]
    (.start 0 [⟨0, .ok shortRequest⟩]) ?_ .start held hmem (hword held)
  intro read hread
  obtain rfl := List.mem_singleton.1 hread
  have hlength : shortRequest.length ≤ readSize := by decide
  exact hlength

end Httpageboy
