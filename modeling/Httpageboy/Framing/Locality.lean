import Httpageboy.Framing.Stability

set_option relaxedAutoImplicit false
set_option autoImplicit false

/-!
# The bytes of a request

A request ends where its head and its body say, whatever follows. So the bytes that the framer
takes off the buffer are taken off every buffer that starts with them, and a buffer that was
still incomplete ends in front of the last of them.

## Main results

* `Httpageboy.chunkStep_of_block`, `Httpageboy.chunkStep_of_last` — a turn of the chunk loop from
  the block that it takes.
* `Httpageboy.takeFramedRequest_local` — the bytes of a request.
* `Httpageboy.length_lt_of_incomplete` — a request is complete no earlier than it ends.
-/

namespace Httpageboy

open Search

/-! ## The chunk loop -/

/-- The turn of the chunk loop at a block within the limits: a size line, the data it announces
and their terminator. -/
lemma chunkStep_of_block {limits : RequestLimits} {cursor decodedLen metadataBytes : ℕ}
    {line data : Bytes} (rest : Bytes)
    (hline : findCrlf (line ++ crlf ++ (data ++ crlf ++ rest)) = some line.length)
    (hsize : chunkSize line = .ok data.length) (hne : data ≠ [])
    (hmeta : saturatingAdd metadataBytes (line.length + 2) ≤ limits.headerBytes)
    (hbody : saturatingAdd decodedLen data.length ≤ limits.bodyBytes)
    (hword : cursor + line.length + 2 + data.length + 2 ≤ usizeMax) :
    chunkStep limits cursor (line ++ crlf ++ (data ++ crlf ++ rest)) decodedLen metadataBytes =
      .ok (.chunk data rest (cursor + line.length + 2 + data.length + 2)
        (saturatingAdd metadataBytes (line.length + 2))) := by
  have htake : (line ++ crlf ++ (data ++ crlf ++ rest)).take line.length = line := by
    rw [List.append_assoc]
    exact List.take_left' rfl
  have hdrop : (line ++ crlf ++ (data ++ crlf ++ rest)).drop (line.length + 2) =
      data ++ crlf ++ rest :=
    List.drop_left' (by simp [crlf])
  have hzero : data.length ≠ 0 := by simpa using hne
  have hdataEnd : checkedAdd (cursor + line.length + 2) data.length =
      some (cursor + line.length + 2 + data.length) :=
    checkedAdd_eq_some_iff.2 ⟨rfl, by omega⟩
  have hchunkEnd : checkedAdd (cursor + line.length + 2 + data.length) 2 =
      some (cursor + line.length + 2 + data.length + 2) :=
    checkedAdd_eq_some_iff.2 ⟨rfl, hword⟩
  have hshort : ¬ (data ++ crlf ++ rest).length < data.length + 2 := by
    simp only [crlf, List.length_append, List.length_cons, List.length_nil]
    omega
  have hterminator : ((data ++ crlf ++ rest).drop data.length).take 2 = crlf := by
    rw [List.append_assoc, List.drop_left' rfl]
    rfl
  have hdata : (data ++ crlf ++ rest).take data.length = data := by
    rw [List.append_assoc]
    exact List.take_left' rfl
  have hrest : (data ++ crlf ++ rest).drop (data.length + 2) = rest :=
    List.drop_left' (by simp [crlf])
  unfold chunkStep
  rw [hline]
  simp only [htake, hdrop, if_neg (Nat.not_lt.2 hmeta), hsize, if_neg hzero,
    if_neg (Nat.not_lt.2 hbody), hdataEnd, hchunkEnd, if_neg hshort, hterminator, hdata, hrest,
    ne_eq, not_true_eq_false, if_false]

/-- The turn of the chunk loop at the last chunk, with a complete trailer section behind it. -/
lemma chunkStep_of_last {limits : RequestLimits} {cursor decodedLen metadataBytes : ℕ}
    {line tail rest : Bytes} (hline : findCrlf (line ++ crlf ++ tail) = some line.length)
    (hsize : chunkSize line = .ok 0)
    (hmeta : saturatingAdd metadataBytes (line.length + 2) ≤ limits.headerBytes)
    (htrailer : takeTrailer limits tail = .ok (some rest)) :
    chunkStep limits cursor (line ++ crlf ++ tail) decodedLen metadataBytes = .ok (.last rest) := by
  have htake : (line ++ crlf ++ tail).take line.length = line := by
    rw [List.append_assoc]
    exact List.take_left' rfl
  have hdrop : (line ++ crlf ++ tail).drop (line.length + 2) = tail :=
    List.drop_left' (by simp [crlf])
  unfold chunkStep
  rw [hline]
  simp only [htake, hdrop, if_neg (Nat.not_lt.2 hmeta), hsize, if_true, htrailer]

/-- A trailer section is taken off whatever follows it. -/
lemma takeTrailer_local {limits : RequestLimits} {tail rest : Bytes}
    (h : takeTrailer limits tail = .ok (some rest)) :
    ∃ bytes, tail = bytes ++ rest ∧ ∀ t, takeTrailer limits (bytes ++ t) = .ok (some t) := by
  rcases takeTrailer_eq_some_iff.1 h with rfl | ⟨trailer, hsplit, hempty, hmax, hcolon⟩
  · exact ⟨crlf, rfl, fun t => takeTrailer_eq_some_iff.2 (.inl rfl)⟩
  · refine ⟨Utf8.encode trailer ++ crlfcrlf, hsplit.eq, fun t => takeTrailer_eq_some_iff.2 ?_⟩
    refine .inr ⟨trailer, hsplit.replace t, ?_, hmax, hcolon⟩
    -- the first two bytes are those of the section, whatever follows it
    have hstart : ∀ u : Bytes, (Utf8.encode trailer ++ crlfcrlf ++ u).take 2 =
        (Utf8.encode trailer ++ crlfcrlf).take 2 := by
      intro u
      apply List.take_append_of_le_length
      simp only [crlfcrlf, List.length_append, List.length_cons, List.length_nil]
      omega
    rw [hsplit.eq, hstart] at hempty
    rw [hstart]
    exact hempty

/-- A chunked body is taken off whatever follows it.

**Proof sketch.** Induction along the loop: the block that a turn takes is the same block when
other bytes follow it. -/
theorem chunkLoop_local {limits : RequestLimits} {cursor metadataBytes : ℕ}
    {tail decoded body rest : Bytes}
    (h : chunkLoop limits cursor tail decoded metadataBytes = .ok (some (body, rest))) :
    ∃ wire, tail = wire ++ rest ∧
      ∀ t, chunkLoop limits cursor (wire ++ t) decoded metadataBytes = .ok (some (body, t)) := by
  fun_induction chunkLoop limits cursor tail decoded metadataBytes with
  | case1 => simp at h
  | case2 => simp at h
  | case3 cursor tail decoded metadataBytes rest' hstep =>
    simp only [Except.ok.injEq, Option.some.injEq, Prod.mk.injEq] at h
    obtain ⟨rfl, rfl⟩ := h
    obtain ⟨line, after, rfl, hcrlf, hsize, hmeta, htrailer⟩ := chunkStep_last hstep
    obtain ⟨trailer, rfl, hlocal⟩ := takeTrailer_local htrailer
    refine ⟨line ++ crlf ++ trailer, by simp only [List.append_assoc], fun t => ?_⟩
    rw [List.append_assoc _ trailer, chunkLoop_eq,
      chunkStep_of_last (position_replace hcrlf _) hsize hmeta (hlocal t)]
  | case4 cursor tail decoded metadataBytes data after cursor' metadataBytes' hstep ih =>
    obtain ⟨line, rfl, hcrlf, hsize, hne, rfl, hmeta, hbody, rfl, hword⟩ := chunkStep_chunk hstep
    obtain ⟨wire, rfl, hlocal⟩ := ih h
    refine ⟨line ++ crlf ++ (data ++ crlf ++ wire), by simp only [List.append_assoc], fun t => ?_⟩
    have hline : findCrlf (line ++ crlf ++ (data ++ crlf ++ (wire ++ t))) = some line.length := by
      have hassoc : line ++ crlf ++ data ++ crlf ++ (wire ++ rest) =
          line ++ crlf ++ (data ++ crlf ++ (wire ++ rest)) := by simp only [List.append_assoc]
      rw [hassoc] at hcrlf
      exact position_replace hcrlf _
    have hbytes : line ++ crlf ++ (data ++ crlf ++ wire) ++ t =
        line ++ crlf ++ (data ++ crlf ++ (wire ++ t)) := by simp only [List.append_assoc]
    rw [hbytes, chunkLoop_eq, chunkStep_of_block (wire ++ t) hline hsize hne hmeta hbody hword]
    exact hlocal t

/-! ## The framer -/

/-- What the body stage takes, it takes off whatever follows, unless it waited for the end of
the stream. -/
lemma bodyTaken_local {limits : RequestLimits} {idleEnd : Bool} {head : Str}
    {tail body rest : Bytes} {framing : BodyFraming}
    (h : BodyTaken limits idleEnd head tail body rest framing) :
    ∃ wire, tail = wire ++ rest ∧
      (rest = [] ∨ ∀ t, BodyTaken limits false head (wire ++ t) body t framing) := by
  cases framing with
  | none =>
    rcases h with ⟨-, -, -, rfl, rfl⟩ | ⟨hmethod, rfl, rfl⟩
    · exact ⟨body, by simp, .inl rfl⟩
    · exact ⟨[], rfl, .inr fun t => .inr ⟨hmethod, rfl, rfl⟩⟩
  | length n =>
    obtain ⟨rfl, hlen, hmax, hword⟩ := h
    exact ⟨body, rfl, .inr fun t => ⟨rfl, hlen, hmax, hword⟩⟩
  | chunked =>
    obtain ⟨wire, rfl, hlocal⟩ := chunkLoop_local h
    exact ⟨wire, rfl, .inr hlocal⟩

/-- **The bytes of a request**: the framer takes them off the front of the buffer, and off every
buffer that starts with them, unless it took all there was when the stream ended.

**Proof sketch.** The head and the body are taken off a front of the buffer (`bodyTaken_local`), and
off that front with anything else behind it. -/
theorem takeFramedRequest_local {buffer raw rest : Bytes} {limits : RequestLimits} {idleEnd : Bool}
    (h : takeFramedRequest buffer limits idleEnd = (.ok (some raw), rest)) :
    ∃ wire, buffer = wire ++ rest ∧
      (rest = [] ∨
        ∀ t, takeFramedRequest (wire ++ t) limits false = (.ok (some raw), t)) := by
  obtain ⟨head, tail, framing, body, hsplit, hmax, hframing, hraw, hbody⟩ :=
    takeFramedRequest_eq_some_iff.1 h
  obtain ⟨wire, rfl, hlocal⟩ := bodyTaken_local hbody
  refine ⟨Utf8.encode head ++ crlfcrlf ++ wire, ?_, ?_⟩
  · rw [hsplit.eq]
    simp only [List.append_assoc]
  · rcases hlocal with rfl | hlocal
    · exact .inl rfl
    · right
      intro t
      refine takeFramedRequest_eq_some_iff.2
        ⟨head, wire ++ t, framing, body, ?_, hmax, hframing, hraw, hlocal t⟩
      rw [List.append_assoc]
      exact hsplit.replace (wire ++ t)

/-- A buffer without a complete request is shorter than the request that is taken when more bytes
have arrived. -/
lemma length_lt_of_incomplete {buffer t wire raw rest : Bytes} {limits : RequestLimits}
    {idleEnd : Bool} (hwait : (takeFramedRequest buffer limits false).1 = .ok none)
    (hsplit : buffer ++ t = wire ++ rest)
    (htake : takeFramedRequest (wire ++ rest) limits idleEnd = (.ok (some raw), rest)) :
    t = [] ∨ buffer.length < wire.length := by
  obtain ⟨wire', hwire, hlocal⟩ := takeFramedRequest_local htake
  obtain rfl : wire = wire' := List.append_cancel_right hwire
  have hlen := congrArg List.length hsplit
  rw [List.length_append, List.length_append] at hlen
  by_contra hneither
  rw [not_or] at hneither
  obtain ⟨hsome, hlong⟩ := hneither
  have htpos : 0 < t.length := List.length_pos_of_ne_nil hsome
  rcases hlocal with rfl | hlocal
  · rw [List.length_nil] at hlen
    omega
  · obtain ⟨extra, hextra⟩ : wire <+: buffer := by
      refine List.prefix_of_prefix_length_le ?_ (List.prefix_append buffer t) (by omega)
      exact ⟨rest, hsplit.symm⟩
    rw [← hextra, hlocal extra] at hwait
    cases hwait

end Httpageboy
