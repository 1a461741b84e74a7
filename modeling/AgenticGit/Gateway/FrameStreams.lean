import AgenticGit.Gateway.Frames

/- What a `FrameReader` yields of a stream, however the stream is cut.

   The reader is a decoder of frames (`frameDecoder`): `push` is `drain` over what it holds,
   as long as that is not more than `maxBufferBytes`, and its caller feeds it until it yields
   a `close` or a `fault`.

   What is proved:
     1. `readFrame_cases` — the input is not a whole frame yet, or its header is refused, or
        it begins with a frame.
     2. `pushLoop_drain` — `push` reads what there is, and its last event is one the caller
        closes on just when the decoder has stopped.
     3. `pushAll_eq` — however the stream is cut, as long as no push is over the limit.
     4. `neverOver_of_chunks` — which none is, of chunks that leave room for one frame. -/
namespace AgenticGit.Gateway
open AgenticGit.Buffers AgenticGit.Incremental

variable [LossyUtf8] (options : FrameReaderOptions)

/-! ## One frame -/

theorem readFrame_tooLarge {input tail : List Byte} {first second : Byte} (s : FragmentState)
    (hinput : input = first :: second :: tail) (hreserved : first &&& 0x70 = 0)
    (hread : readLength options input second = .tooLarge) :
    readFrame options ⟨input, s⟩ = .faulted [.fault 1009 "Frame too large"] ⟨input, s⟩ := by
  subst hinput
  simp only [readFrame, hreserved, hread, ne_eq, not_true, if_false]

theorem readFrame_length {input tail : List Byte} {first second : Byte} {length offset : Nat}
    (s : FragmentState) (hinput : input = first :: second :: tail)
    (hreserved : first &&& 0x70 = 0)
    (hread : readLength options input second = .length length offset) :
    readFrame options ⟨input, s⟩ =
      if !decide (second &&& 0x80 ≠ 0) then
        .faulted [.fault 1002 "Client frames must be masked"] ⟨input, s⟩
      else if length > options.maxMessageBytes then
        .faulted [.fault 1009 "Frame too large"] ⟨input, s⟩
      else if input.length < offset + 4 + length then .incomplete
      else acceptFrame options ⟨input.drop (offset + 4 + length), s⟩
        (decide (first &&& 0x80 ≠ 0)) (first &&& 0x0f)
        (applyMask ((input.drop offset).take 4) ((input.drop (offset + 4)).take length)) := by
  subst hinput
  simp only [readFrame, hreserved, hread, ne_eq, not_true, if_false]

/-- **What `readFrame` makes of a header and what follows it.** -/
theorem readFrame_header (header : Header) (rest : List Byte) (s : FragmentState) :
    readFrame options ⟨header.bytes ++ rest, s⟩ =
      if header.form = .long ∧ header.length > options.maxMessageBytes then
        .faulted [.fault 1009 "Frame too large"] ⟨header.bytes ++ rest, s⟩
      else if !header.masked then
        .faulted [.fault 1002 "Client frames must be masked"] ⟨header.bytes ++ rest, s⟩
      else if header.length > options.maxMessageBytes then
        .faulted [.fault 1009 "Frame too large"] ⟨header.bytes ++ rest, s⟩
      else if rest.length < 4 + header.length then .incomplete
      else acceptFrame options ⟨rest.drop (4 + header.length), s⟩ header.final header.opcode
        (applyMask (rest.take 4) ((rest.drop 4).take header.length)) := by
  obtain ⟨hfinal, hreserved, hopcode⟩ := first_bits header.final header.opcode_lt
  obtain ⟨hmasked, -⟩ := second_bits header.masked header.code_lt
  have hread := readLength_header options header rest
  have hinput : header.bytes ++ rest = flagged 0x80 header.final header.opcode ::
      flagged 0x80 header.masked (UInt8.ofNat (header.form.code header.length)) ::
        (header.form.extension header.length ++ rest) := rfl
  have hdrop (n : Nat) : (header.bytes ++ rest).drop (header.bytes.length + n) = rest.drop n :=
    List.drop_length_add_append n
  have hshort : (header.bytes ++ rest).length < header.bytes.length + (4 + header.length) ↔
      rest.length < 4 + header.length := by
    rw [List.length_append]
    omega
  by_cases hlong : header.form = .long ∧ header.length > options.maxMessageBytes
  · rw [if_pos hlong] at hread ⊢
    exact readFrame_tooLarge options s hinput hreserved hread
  · rw [if_neg hlong] at hread ⊢
    rw [readFrame_length options s hinput hreserved hread]
    simp only [hfinal, hmasked, hopcode, hdrop, Nat.add_assoc, hshort, List.drop_left]

/-- **A frame is taken out of the input**, when it is not too large. -/
theorem readFrame_frame (frame : Frame) (rest : List Byte) (s : FragmentState)
    (h : frame.payload.length ≤ options.maxMessageBytes) :
    readFrame options ⟨frame.bytes ++ rest, s⟩ =
      acceptFrame options ⟨rest, s⟩ frame.final frame.opcode frame.payload := by
  have hlength : ¬frame.payload.length > options.maxMessageBytes := Nat.not_lt.mpr h
  have hmask := frame.mask_length
  have hbody : (frame.mask ++ (applyMask frame.mask frame.payload ++ rest)).length =
      4 + frame.payload.length + rest.length := by
    simp only [List.length_append, length_applyMask, hmask, Nat.add_assoc]
  have hnot : ¬(frame.mask ++ (applyMask frame.mask frame.payload ++ rest)).length <
      4 + frame.payload.length := by
    rw [hbody]
    omega
  have hrest : (frame.mask ++ (applyMask frame.mask frame.payload ++ rest)).drop
      (4 + frame.payload.length) = rest := by
    rw [← hmask, List.drop_length_add_append, ← length_applyMask frame.mask frame.payload,
      List.drop_left]
  have htake : (frame.mask ++ (applyMask frame.mask frame.payload ++ rest)).take 4 =
      frame.mask := by
    rw [← hmask, List.take_left]
  have hpayload : ((frame.mask ++ (applyMask frame.mask frame.payload ++ rest)).drop 4).take
      frame.payload.length = applyMask frame.mask frame.payload := by
    rw [← hmask, List.drop_left, ← length_applyMask frame.mask frame.payload, List.take_left]
  rw [Frame.bytes, List.append_assoc, List.append_assoc, readFrame_header]
  simp only [Frame.header, hlength, and_false, if_false, Bool.not_true, Bool.false_eq_true, hnot,
    hrest, htake, hpayload, applyMask_applyMask]

/-- A header that is refused before the frame is there, with the fault it is. -/
inductive Refused : List Byte → Nat → String → Prop
  | reserved (first second : Byte) (rest : List Byte) (h : first &&& 0x70 ≠ 0) :
      Refused (first :: second :: rest) 1002 "Reserved bits set"
  | unmasked (header : Header) (rest : List Byte) (hmasked : header.masked = false)
      (hlength : header.form = .long → header.length ≤ options.maxMessageBytes) :
      Refused (header.bytes ++ rest) 1002 "Client frames must be masked"
  | tooLarge (header : Header) (rest : List Byte)
      (hmasked : header.masked = true ∨ header.form = .long)
      (hlength : options.maxMessageBytes < header.length) :
      Refused (header.bytes ++ rest) 1009 "Frame too large"

variable {options}

omit [LossyUtf8] in
theorem Refused.append {input : List Byte} {code : Nat} {reason : String}
    (h : Refused options input code reason) (behind : List Byte) :
    Refused options (input ++ behind) code reason := by
  cases h with
  | reserved first second rest h => exact .reserved first second (rest ++ behind) h
  | unmasked header rest hmasked hlength =>
    rw [List.append_assoc]
    exact .unmasked header (rest ++ behind) hmasked hlength
  | tooLarge header rest hmasked hlength =>
    rw [List.append_assoc]
    exact .tooLarge header (rest ++ behind) hmasked hlength

theorem Refused.readFrame {input : List Byte} {code : Nat} {reason : String}
    (h : Refused options input code reason) (s : FragmentState) :
    readFrame options ⟨input, s⟩ = .faulted [.fault code reason] ⟨input, s⟩ := by
  cases h with
  | reserved first second rest h => simp only [Gateway.readFrame, ne_eq, h, not_false_iff, if_true]
  | unmasked header rest hmasked hlength =>
    have hnot : ¬(header.form = .long ∧ header.length > options.maxMessageBytes) :=
      fun h => absurd (hlength h.1) (Nat.not_le.mpr h.2)
    rw [readFrame_header, if_neg hnot, hmasked]
    rfl
  | tooLarge header rest hmasked hlength =>
    rw [readFrame_header]
    by_cases hform : header.form = .long
    · rw [if_pos ⟨hform, hlength⟩]
    · have hset : header.masked = true := hmasked.resolve_right hform
      rw [if_neg (fun h => hform h.1), hset, if_neg (by decide), if_pos hlength]

omit [LossyUtf8] in
theorem Header.frame_of_long {header : Header} {rest : List Byte} {limit : Nat}
    (hmasked : header.masked = true) (hlength : header.length ≤ limit)
    (hlong : 4 + header.length ≤ rest.length) :
    ∃ frame : Frame, ∃ behind, frame.payload.length ≤ limit ∧
      header.bytes ++ rest = frame.bytes ++ behind := by
  have hmask : (rest.take 4).length = 4 := List.length_take_of_le (by omega)
  have hbody : ((rest.drop 4).take header.length).length = header.length :=
    List.length_take_of_le (by rw [List.length_drop]; omega)
  have hpayload : (applyMask (rest.take 4) ((rest.drop 4).take header.length)).length =
      header.length := by
    rw [length_applyMask, hbody]
  refine ⟨⟨header.final, header.opcode, header.form, rest.take 4,
    applyMask (rest.take 4) ((rest.drop 4).take header.length), header.opcode_lt, hmask,
    hpayload.symm ▸ header.fits⟩, (rest.drop 4).drop header.length,
    Nat.le_trans (Nat.le_of_eq hpayload) hlength, ?_⟩
  simp only [Frame.bytes, Frame.header, Header.bytes, hpayload, applyMask_applyMask, hmasked,
    List.append_assoc, List.take_append_drop]

theorem header_frame (header : Header) (rest : List Byte) :
    (∀ s, readFrame options ⟨header.bytes ++ rest, s⟩ = .incomplete) ∨
      (∃ code reason, Refused options (header.bytes ++ rest) code reason) ∨
      ∃ frame : Frame, ∃ behind, frame.payload.length ≤ options.maxMessageBytes ∧
        header.bytes ++ rest = frame.bytes ++ behind := by
  by_cases hlong : header.form = .long ∧ header.length > options.maxMessageBytes
  · exact .inr (.inl ⟨_, _, .tooLarge header rest (.inr hlong.1) hlong.2⟩)
  · cases hmasked : header.masked with
    | false =>
      refine .inr (.inl ⟨_, _, .unmasked header rest hmasked fun hform => ?_⟩)
      exact Nat.not_lt.mp fun hlt => hlong ⟨hform, hlt⟩
    | true =>
      by_cases hlength : options.maxMessageBytes < header.length
      · exact .inr (.inl ⟨_, _, .tooLarge header rest (.inl hmasked) hlength⟩)
      · by_cases hshort : rest.length < 4 + header.length
        · refine .inl fun s => ?_
          rw [readFrame_header, if_neg hlong, hmasked, if_neg (by decide), if_neg hlength,
            if_pos hshort]
        · exact .inr (.inr (header.frame_of_long hmasked (Nat.not_lt.mp hlength)
            (Nat.not_lt.mp hshort)))

/-- **What the reader holds**: not a whole frame yet, a header that is refused, or a frame
and what is behind it. -/
theorem readFrame_cases (input : List Byte) :
    (∀ s, readFrame options ⟨input, s⟩ = .incomplete) ∨
      (∃ code reason, Refused options input code reason) ∨
      ∃ frame : Frame, ∃ rest, frame.payload.length ≤ options.maxMessageBytes ∧
        input = frame.bytes ++ rest := by
  match input with
  | [] | [_] => exact .inl (fun s => rfl)
  | first :: second :: tail =>
    by_cases hreserved : first &&& 0x70 = 0
    · rcases header_cases options second tail hreserved with hmore | ⟨header, rest, hinput, -⟩
      · refine .inl fun s => ?_
        simp only [readFrame, hreserved, hmore, ne_eq, not_true, if_false]
      · rw [hinput]
        exact header_frame header rest
    · exact .inr (.inl ⟨_, _, .reserved first second tail hreserved⟩)

/-! ## The reader is a decoder of frames -/

section
variable (options)

/-- What `readFrame` makes of the input, for `drain`. -/
def nextFrame (s : FragmentState) (input : List Byte) : Reading FragmentState Byte FrameEvent :=
  match readFrame options ⟨input, s⟩ with
  | .incomplete => .more
  | .faulted events _ => .stop events
  | .read events reader => .read events reader.state reader.input

theorem nextFrame_frame {frame : Frame} (h : frame.payload.length ≤ options.maxMessageBytes)
    (s : FragmentState) :
    (∃ events s', events.any (·.ends) = false ∧
        ∀ rest, nextFrame options s (frame.bytes ++ rest) = .read events s' rest) ∨
      ∃ event, event.ends = true ∧
        ∀ rest, nextFrame options s (frame.bytes ++ rest) = .stop [event] := by
  simp only [nextFrame, readFrame_frame options frame _ s h]
  rcases acceptFrame_answered options s frame.final frame.opcode frame.payload with
    ⟨events, s', hends, hread⟩ | ⟨event, s', hends, hread⟩
  · dsimp only at hread
    exact .inl ⟨events, s', hends, fun rest => by rw [hread]⟩
  · dsimp only at hread
    exact .inr ⟨event, hends, fun rest => by rw [hread]⟩

variable {options}

variable {input : List Byte} {s : FragmentState}

theorem nextFrame_refused {code : Nat} {reason : String} (h : Refused options input code reason)
    (s : FragmentState) : nextFrame options s input = .stop [.fault code reason] := by
  rw [nextFrame, h.readFrame]

theorem nextFrame_read {s s' : FragmentState} {input rest : List Byte}
    {events : List FrameEvent} (h : nextFrame options s input = .read events s' rest) :
    events.any (·.ends) = false ∧ ∃ frame : Frame,
      frame.payload.length ≤ options.maxMessageBytes ∧ input = frame.bytes ++ rest := by
  rcases @readFrame_cases _ options input with hmore | ⟨code, reason, hrefused⟩ | hframe
  · rw [nextFrame, hmore] at h
    cases h
  · rw [nextFrame_refused hrefused] at h
    cases h
  · obtain ⟨frame, behind, hlength, rfl⟩ := hframe
    rcases nextFrame_frame options hlength s with ⟨events', s'', hends, hread⟩ | ⟨event, -, hstop⟩
    · rw [hread] at h
      cases h
      exact ⟨hends, frame, hlength, rfl⟩
    · rw [hstop] at h
      cases h

theorem nextFrame_stop {events : List FrameEvent} (h : nextFrame options s input = .stop events)
    (behind : List Byte) : ∃ event : FrameEvent, event.ends = true ∧ events = [event] ∧
      nextFrame options s (input ++ behind) = .stop [event] := by
  rcases @readFrame_cases _ options input with hmore | ⟨code, reason, hrefused⟩ | hframe
  · rw [nextFrame, hmore] at h
    cases h
  · rw [nextFrame_refused hrefused] at h
    cases h
    exact ⟨_, rfl, rfl, nextFrame_refused (hrefused.append behind) s⟩
  · obtain ⟨frame, rest, hlength, rfl⟩ := hframe
    rw [List.append_assoc]
    rcases nextFrame_frame options hlength s with ⟨events', s'', -, hread⟩ | ⟨event, hends, hstop⟩
    · rw [hread] at h
      cases h
    · rw [hstop] at h
      cases h
      exact ⟨event, hends, rfl, hstop _⟩

theorem nextFrame_shorter {s s' : FragmentState} {input rest : List Byte}
    {events : List FrameEvent} (h : nextFrame options s input = .read events s' rest) :
    rest.length < input.length := by
  obtain ⟨-, frame, -, rfl⟩ := nextFrame_read h
  simp only [Frame.bytes, Header.bytes, List.cons_append, List.length_cons, List.length_append]
  omega

theorem nextFrame_append {s s' : FragmentState} {input rest : List Byte}
    {events : List FrameEvent} (behind : List Byte)
    (h : nextFrame options s input = .read events s' rest) :
    nextFrame options s (input ++ behind) = .read events s' (rest ++ behind) := by
  obtain ⟨-, frame, hlength, rfl⟩ := nextFrame_read h
  rw [List.append_assoc]
  rcases nextFrame_frame options hlength s with ⟨events', s'', -, hread⟩ | ⟨event, -, hstop⟩
  · rw [hread] at h ⊢
    cases h
    rfl
  · rw [hstop] at h
    cases h

theorem nextFrame_stop_append {events : List FrameEvent} (behind : List Byte)
    (h : nextFrame options s input = .stop events) :
    nextFrame options s (input ++ behind) = .stop events := by
  obtain ⟨event, -, rfl, hstop⟩ := nextFrame_stop h behind
  exact hstop

variable (options) in
/-- **The reader is a decoder**: what it makes of the front of its input does not depend on
what follows. -/
def frameDecoder : Decoder FragmentState Byte FrameEvent where
  next := nextFrame options
  shorter h := nextFrame_shorter h
  read_append behind h := nextFrame_append behind h
  stop_append behind h := nextFrame_stop_append behind h

theorem frameDecoder_next (s : FragmentState) (input : List Byte) :
    (frameDecoder options).next s input = nextFrame options s input := rfl

/-! ## push -/

/-- **`pushLoop` reads what there is**: its last event ends the connection just when the
decoder has stopped. -/
theorem pushLoop_drain (s : FragmentState) (input : List Byte) :
    (pushLoop options ⟨input, s⟩).1 = (drain (frameDecoder options) s input).1 ∧
      ((drain (frameDecoder options) s input).2 = none ∧
          (pushLoop options ⟨input, s⟩).1.any (·.ends) = true ∨
        ∃ s' rest, (drain (frameDecoder options) s input).2 = some (s', rest) ∧
          (pushLoop options ⟨input, s⟩).2 = ⟨rest, s'⟩ ∧
          (pushLoop options ⟨input, s⟩).1.any (·.ends) = false) := by
  induction hn : input.length using Nat.strongRecOn generalizing s input with
  | ind n ih =>
    rw [pushLoop]
    split
    · rename_i hread
      have hnext : (frameDecoder options).next s input = .more := by
        rw [frameDecoder_next, nextFrame, hread]
      rw [drain_more _ hnext]
      exact ⟨rfl, .inr ⟨s, input, rfl, rfl, rfl⟩⟩
    · rename_i events reader hread
      have hstop : nextFrame options s input = .stop events := by rw [nextFrame, hread]
      obtain ⟨event, hends, rfl, -⟩ := nextFrame_stop hstop []
      have hnext : (frameDecoder options).next s input = .stop [event] := hstop
      rw [drain_stop _ hnext]
      exact ⟨rfl, .inl ⟨rfl, by simp only [List.any_cons, hends, Bool.true_or]⟩⟩
    · rename_i events reader hread
      have hnext : nextFrame options s input = .read events reader.state reader.input := by
        rw [nextFrame, hread]
      obtain ⟨hends, -⟩ := nextFrame_read hnext
      have hlt := (frameDecoder options).shorter hnext
      rw [drain_read (frameDecoder options) hnext]
      obtain ⟨hevents, hrest⟩ := ih reader.input.length (hn ▸ hlt) reader.state reader.input rfl
      refine ⟨congrArg (events ++ ·) hevents, ?_⟩
      simp only [List.any_append, hends, Bool.false_or]
      exact hrest

end

section
variable (options)

/-- No push brings the held input over `maxBufferBytes`. -/
def NeverOver (reader : FrameReader) : List (List Byte) → Prop
  | [] => True
  | chunk :: chunks =>
    (reader.input ++ chunk).length ≤ options.maxBufferBytes ∧
      ((push options reader chunk).1.any (·.ends) = false →
        NeverOver (push options reader chunk).2 chunks)

variable {options}

variable {s : FragmentState} {input : List Byte}

/-- **`push` after `push` is `feed`.** -/
theorem pushAll_feed {held : List Byte} {chunks : List (List Byte)}
    (h : NeverOver options ⟨held, s⟩ chunks) :
    pushAll options ⟨held, s⟩ chunks = (feed (frameDecoder options) s held chunks).1 := by
  induction chunks generalizing s held with
  | nil => rfl
  | cons chunk chunks ih =>
    obtain ⟨hlength, hnext⟩ := h
    have hpush : push options ⟨held, s⟩ chunk = pushLoop options ⟨held ++ chunk, s⟩ :=
      if_neg (Nat.not_lt.mpr hlength)
    rw [hpush] at hnext
    rw [pushAll, feed, hpush]
    obtain ⟨hevents, ⟨hstop, hends⟩ | ⟨s', rest, hheld, hreader, hends⟩⟩ :=
      @pushLoop_drain _ options s (held ++ chunk)
    · dsimp only
      rw [if_pos hends, hstop, hevents]
    · have htail := hnext hends
      rw [hreader] at htail
      dsimp only
      rw [hends, if_neg (by decide), hheld, hreader, ih htail, hevents]

/-- **However the stream is cut**, it is read as if all of it were there. -/
theorem pushAll_eq {chunks : List (List Byte)} (h : NeverOver options .new chunks) :
    pushAll options .new chunks = (drain (frameDecoder options) .idle chunks.flatten).1 := by
  have hnew : (frameDecoder options).next .idle [] = .more := rfl
  rw [FrameReader.new, pushAll_feed h, feed_eq_drain _ hnew, List.nil_append]

omit [LossyUtf8] in
theorem length_of_readLength_incomplete {second : Byte}
    (h : readLength options input second = .incomplete) : input.length < 10 := by
  unfold readLength at h
  dsimp only at h
  split at h
  · split at h
    · omega
    · cases h
  · split at h
    · split at h
      · assumption
      · split at h
        · cases h
        · cases h
    · cases h

theorem header_of_incomplete {header : Header} {rest : List Byte}
    (h : nextFrame options s (header.bytes ++ rest) = .more) :
    header.length ≤ options.maxMessageBytes ∧ rest.length < 4 + header.length := by
  rw [nextFrame, readFrame_header] at h
  by_cases hlong : header.form = .long ∧ header.length > options.maxMessageBytes
  · rw [if_pos hlong] at h
    cases h
  by_cases hmasked : header.masked = true
  swap
  · rw [if_neg hlong, if_pos (by simpa using hmasked)] at h
    cases h
  by_cases hlength : header.length > options.maxMessageBytes
  · rw [if_neg hlong, if_neg (by simpa using hmasked), if_pos hlength] at h
    cases h
  by_cases hshort : rest.length < 4 + header.length
  · exact ⟨Nat.not_lt.mp hlength, hshort⟩
  · rw [if_neg hlong, if_neg (by simpa using hmasked), if_neg hlength, if_neg hshort] at h
    rcases acceptFrame_answered options s header.final header.opcode
      (applyMask (rest.take 4) ((rest.drop 4).take header.length)) with
      ⟨events, s', -, hread⟩ | ⟨event, s', -, hread⟩
    · dsimp only at hread
      rw [hread] at h
      cases h
    · dsimp only at hread
      rw [hread] at h
      cases h

theorem length_of_incomplete (h : nextFrame options s input = .more) :
    input.length < options.maxMessageBytes + 14 := by
  match input with
  | [] | [_] =>
    simp only [List.length_nil, List.length_cons]
    omega
  | first :: second :: tail =>
    by_cases hreserved : first &&& 0x70 = 0
    · rcases header_cases options second tail hreserved with hmore | ⟨header, rest, hinput, -⟩
      · exact Nat.lt_of_lt_of_le (length_of_readLength_incomplete hmore) (by omega)
      · have hheader : header.bytes.length ≤ 10 := by
          rw [header.length_bytes]
          cases header.form <;> decide
        rw [hinput] at h ⊢
        obtain ⟨hlength, hshort⟩ := header_of_incomplete h
        rw [List.length_append]
        omega
    · rw [nextFrame_refused (.reserved first second tail hreserved)] at h
      cases h

/-- **Chunks that leave room for one frame** are never over the limit. -/
theorem neverOver_of_chunks {held : List Byte} {chunks : List (List Byte)}
    (hheld : nextFrame options s held = .more)
    (h : ∀ chunk ∈ chunks, chunk.length + options.maxMessageBytes + 13 ≤ options.maxBufferBytes) :
    NeverOver options ⟨held, s⟩ chunks := by
  induction chunks generalizing s held with
  | nil => trivial
  | cons chunk chunks ih =>
    have hlt := length_of_incomplete hheld
    have hchunk := h chunk List.mem_cons_self
    have hlength : (held ++ chunk).length ≤ options.maxBufferBytes := by
      rw [List.length_append]
      omega
    have hpush : push options ⟨held, s⟩ chunk = pushLoop options ⟨held ++ chunk, s⟩ :=
      if_neg (Nat.not_lt.mpr hlength)
    refine ⟨hlength, fun hends => ?_⟩
    rw [hpush] at hends ⊢
    obtain ⟨-, ⟨-, hends'⟩ | ⟨s', rest, hrest, hreader, -⟩⟩ :=
      @pushLoop_drain _ options s (held ++ chunk)
    · rw [hends'] at hends
      cases hends
    · rw [hreader]
      exact ih (drain_held _ hrest) fun chunk' hmem => h chunk' (List.mem_cons_of_mem _ hmem)

end

end AgenticGit.Gateway
