import AgenticGit.Gateway.FrameStreams

/- What the frames of a connection say.

   Over frames, a connection is read without the reader's state: `held` is what has come of
   the message that is not finished (`none` between messages), `Legal` says which frame may
   come next, `afterFrame` and `yieldsFrame` what it leaves and what it says, and `Refusal`
   what a frame that may not come is answered with. A client's messages and control frames
   are `Sent`, with every way of cutting a message into fragments.

   What is proved:
     1. `nextFrame_legal`, `nextFrame_refusal` — the reader does what these say.
     2. `bytes_unique` — a stream begins with one frame at most.
     3. `sent_legal` — what a client sends may come, and says what was sent.
     4. `frames_read_back` — messages and control frames are read back exactly, however the
        stream is cut; and of any stream the longest run of frames that may come is read,
        and then its end. -/
namespace AgenticGit.Gateway
open AgenticGit.Buffers AgenticGit.Incremental

/-! ## Frames that may come -/

/-- A frame that may come, when `held` is what has come of a message. -/
inductive Legal (options : FrameReaderOptions) : Option (List Byte) → Frame → Prop
  | ping (held : Option (List Byte)) (frame : Frame) (hopcode : frame.opcode = opcodePing)
      (hfinal : frame.final = true) (hlength : frame.payload.length ≤ options.maxMessageBytes) :
      Legal options held frame
  | pong (held : Option (List Byte)) (frame : Frame) (hopcode : frame.opcode = opcodePong)
      (hfinal : frame.final = true) (hlength : frame.payload.length ≤ options.maxMessageBytes) :
      Legal options held frame
  | text (frame : Frame) (hopcode : frame.opcode = opcodeText)
      (hlength : frame.payload.length ≤ options.maxMessageBytes) : Legal options none frame
  | continuation (bytes : List Byte) (frame : Frame) (hopcode : frame.opcode = opcodeContinuation)
      (hlength : bytes.length + frame.payload.length ≤ options.maxMessageBytes) :
      Legal options (some bytes) frame

theorem Legal.length_le {options : FrameReaderOptions} {held : Option (List Byte)} {frame : Frame}
    (h : Legal options held frame) : frame.payload.length ≤ options.maxMessageBytes := by
  cases h with
  | ping _ _ _ _ hlength | pong _ _ _ _ hlength | text _ _ hlength => exact hlength
  | continuation bytes _ _ hlength => exact Nat.le_trans (Nat.le_add_left _ _) hlength

def afterFrame (held : Option (List Byte)) (frame : Frame) : Option (List Byte) :=
  if frame.opcode = opcodePing ∨ frame.opcode = opcodePong then held
  else if frame.final then none else some (held.getD [] ++ frame.payload)

def yieldsFrame [LossyUtf8] (held : Option (List Byte)) (frame : Frame) : List FrameEvent :=
  if frame.opcode = opcodePing then [.ping frame.payload]
  else if frame.opcode = opcodePong then [.pong]
  else if frame.final then [.text (decodeUtf8 (held.getD [] ++ frame.payload))] else []

/-- What a frame that may not come is answered with. -/
inductive Refusal (options : FrameReaderOptions) : Option (List Byte) → Frame → FrameEvent → Prop
  | close (held : Option (List Byte)) (frame : Frame) (hopcode : frame.opcode = opcodeClose) :
      Refusal options held frame .close
  | fragmented (held : Option (List Byte)) (frame : Frame) (hopcode : frame.opcode = opcodePing)
      (hfinal : frame.final = false) :
      Refusal options held frame (.fault 1002 "Control frames cannot be fragmented")
  | binary (held : Option (List Byte)) (frame : Frame) (hopcode : frame.opcode = opcodeBinary) :
      Refusal options held frame (.fault 1003 "Binary frames are not accepted")
  | unsupported (held : Option (List Byte)) (frame : Frame)
      (hopcode : frame.opcode ∉ [opcodeContinuation, opcodeText, opcodeBinary, opcodeClose,
        opcodePing, opcodePong]) :
      Refusal options held frame (.fault 1003 "Unsupported frame")
  | noStart (frame : Frame) (hopcode : frame.opcode = opcodeContinuation) :
      Refusal options none frame (.fault 1002 "Continuation without a start frame")
  | newMessage (bytes : List Byte) (frame : Frame) (hopcode : frame.opcode = opcodeText) :
      Refusal options (some bytes) frame
        (.fault 1002 "A new message started before the previous one finished")
  | tooLarge (bytes : List Byte) (frame : Frame) (hopcode : frame.opcode = opcodeContinuation)
      (hlength : options.maxMessageBytes < bytes.length + frame.payload.length) :
      Refusal options (some bytes) frame (.fault 1009 "Message too large")

/-- A pong or a close that is not a whole frame of its own. -/
def Frame.SplitControl (frame : Frame) : Prop :=
  frame.final = false ∧ (frame.opcode = opcodePong ∨ frame.opcode = opcodeClose)

/-- **Every frame may come or is refused**, one that is a part of a pong apart. -/
theorem legal_or_refusal {options : FrameReaderOptions} (held : Option (List Byte))
    {frame : Frame} (hlength : frame.payload.length ≤ options.maxMessageBytes)
    (hsplit : ¬frame.SplitControl) :
    Legal options held frame ∨ ∃ event, Refusal options held frame event := by
  by_cases hclose : frame.opcode = opcodeClose
  · exact .inr ⟨_, .close held frame hclose⟩
  by_cases hbinary : frame.opcode = opcodeBinary
  · exact .inr ⟨_, .binary held frame hbinary⟩
  by_cases hping : frame.opcode = opcodePing
  · cases hfinal : frame.final with
    | true => exact .inl (.ping held frame hping hfinal hlength)
    | false => exact .inr ⟨_, .fragmented held frame hping hfinal⟩
  by_cases hpong : frame.opcode = opcodePong
  · cases hfinal : frame.final with
    | true => exact .inl (.pong held frame hpong hfinal hlength)
    | false => exact absurd ⟨hfinal, .inl hpong⟩ hsplit
  by_cases htext : frame.opcode = opcodeText
  · cases held with
    | none => exact .inl (.text frame htext hlength)
    | some bytes => exact .inr ⟨_, .newMessage bytes frame htext⟩
  by_cases hcontinuation : frame.opcode = opcodeContinuation
  · cases held with
    | none => exact .inr ⟨_, .noStart frame hcontinuation⟩
    | some bytes =>
      by_cases hfits : bytes.length + frame.payload.length ≤ options.maxMessageBytes
      · exact .inl (.continuation bytes frame hcontinuation hfits)
      · exact .inr ⟨_, .tooLarge bytes frame hcontinuation (Nat.not_le.mp hfits)⟩
  · refine .inr ⟨_, .unsupported held frame ?_⟩
    simp only [List.mem_cons, List.not_mem_nil, or_false, hcontinuation, htext, hbinary, hclose,
      hping, hpong, not_false_iff]

/-! ## The reader does what these say -/

def Keeps (s : FragmentState) : Option (List Byte) → Prop
  | none => s = .idle
  | some bytes => s.fragments.flatten = bytes ∧ s.fragmentBytes = bytes.length ∧
      s.fragmentOpcode = some opcodeText

section
variable [LossyUtf8] {options : FrameReaderOptions}

variable {s : FragmentState} {held : Option (List Byte)}

theorem acceptFrame_data {opcode : Byte} {payload : List Byte} (final : Bool) (rest : List Byte)
    (hopcode : opcode = opcodeText ∧ s.fragmentOpcode = none ∨
      opcode = opcodeContinuation ∧ s.fragmentOpcode = some opcodeText)
    (hlength : s.fragmentBytes + payload.length ≤ options.maxMessageBytes) :
    acceptFrame options ⟨rest, s⟩ final opcode payload =
      if final then .read [.text (decodeUtf8 (s.fragments ++ [payload]).flatten)] ⟨rest, .idle⟩
      else .read [] ⟨rest, ⟨s.fragments ++ [payload], s.fragmentBytes + payload.length,
        some opcodeText⟩⟩ := by
  have hnot : ¬s.fragmentBytes + payload.length > options.maxMessageBytes := Nat.not_lt.mpr hlength
  rcases hopcode with ⟨rfl, hstart⟩ | ⟨rfl, hstart⟩
  · rw [acceptFrame]
    simp only [hstart, hnot, if_false]
    cases final <;> rfl
  · rw [acceptFrame]
    simp only [hstart, hnot, if_false]
    cases final <;> rfl

/-- **A frame that may come is read.** -/
theorem nextFrame_legal {frame : Frame} (rest : List Byte) (hkeeps : Keeps s held)
    (h : Legal options held frame) : ∃ s', Keeps s' (afterFrame held frame) ∧
      nextFrame options s (frame.bytes ++ rest) = .read (yieldsFrame held frame) s' rest := by
  rw [nextFrame, readFrame_frame options frame rest s h.length_le]
  cases h with
  | ping _ _ hopcode hfinal hlength =>
    refine ⟨s, ?_, ?_⟩
    · rwa [afterFrame, if_pos (.inl hopcode)]
    · rw [yieldsFrame, if_pos hopcode, acceptFrame, hopcode, hfinal]
      rfl
  | pong _ _ hopcode hfinal hlength =>
    refine ⟨s, ?_, ?_⟩
    · rwa [afterFrame, if_pos (.inr hopcode)]
    · rw [yieldsFrame, acceptFrame, hopcode]
      rfl
  | text _ hopcode hlength =>
    obtain rfl : s = .idle := hkeeps
    have hfits : FragmentState.idle.fragmentBytes + frame.payload.length ≤
        options.maxMessageBytes := by
      rw [FragmentState.idle, Nat.zero_add]
      exact hlength
    rw [acceptFrame_data frame.final rest (.inl ⟨hopcode, rfl⟩) hfits]
    cases hfinal : frame.final with
    | true =>
      refine ⟨.idle, ?_, ?_⟩
      · rw [afterFrame, hopcode, hfinal]
        rfl
      · rw [yieldsFrame, hopcode, hfinal]
        simp only [FragmentState.idle, List.nil_append, List.flatten_singleton, Option.getD_none]
        rfl
    | false =>
      refine ⟨⟨[frame.payload], frame.payload.length, some opcodeText⟩, ?_, ?_⟩
      · rw [afterFrame, hopcode, hfinal]
        exact ⟨List.flatten_singleton, rfl, rfl⟩
      · rw [yieldsFrame, hopcode, hfinal, FragmentState.idle, Nat.zero_add]
        rfl
  | continuation bytes _ hopcode hlength =>
    obtain ⟨hflatten, hbytes, hstarted⟩ := hkeeps
    rw [← hbytes] at hlength
    have hwhole : (s.fragments ++ [frame.payload]).flatten = bytes ++ frame.payload := by
      rw [List.flatten_append, hflatten, List.flatten_singleton]
    rw [acceptFrame_data frame.final rest (.inr ⟨hopcode, hstarted⟩) hlength, hwhole]
    cases hfinal : frame.final with
    | true =>
      refine ⟨.idle, ?_, ?_⟩
      · rw [afterFrame, hopcode, hfinal]
        rfl
      · rw [yieldsFrame, hopcode, hfinal]
        rfl
    | false =>
      refine ⟨⟨s.fragments ++ [frame.payload], s.fragmentBytes + frame.payload.length,
        some opcodeText⟩, ?_, ?_⟩
      · rw [afterFrame, hopcode, hfinal]
        refine ⟨hwhole, ?_, rfl⟩
        rw [hbytes, Option.getD_some, List.length_append]
      · rw [yieldsFrame, hopcode, hfinal]
        rfl

/-- **A frame that may not come stops the reader.** -/
theorem nextFrame_refusal {frame : Frame} {event : FrameEvent} (rest : List Byte)
    (hkeeps : Keeps s held) (hlength : frame.payload.length ≤ options.maxMessageBytes)
    (h : Refusal options held frame event) :
    nextFrame options s (frame.bytes ++ rest) = .stop [event] := by
  rw [nextFrame, readFrame_frame options frame rest s hlength]
  cases h with
  | close _ _ hopcode =>
    rw [acceptFrame, hopcode]
    rfl
  | fragmented _ _ hopcode hfinal =>
    rw [acceptFrame, hopcode, hfinal]
    rfl
  | binary _ _ hopcode =>
    rw [acceptFrame, hopcode]
    rfl
  | unsupported _ _ hopcode =>
    simp only [List.mem_cons, List.not_mem_nil, or_false, not_or] at hopcode
    obtain ⟨hcontinuation, htext, hbinary, hclose, hping, hpong⟩ := hopcode
    simp only [acceptFrame, hcontinuation, htext, hbinary, hclose, hping, hpong, if_false,
      ne_eq, not_false_iff, and_self, if_true]
  | noStart _ hopcode =>
    obtain rfl : s = .idle := hkeeps
    rw [acceptFrame, hopcode]
    rfl
  | newMessage bytes _ hopcode =>
    obtain ⟨-, -, hstarted⟩ := hkeeps
    rw [acceptFrame, hopcode]
    simp only [hstarted]
    rfl
  | tooLarge bytes _ hopcode hfits =>
    obtain ⟨-, hbytes, hstarted⟩ := hkeeps
    rw [acceptFrame, hopcode]
    simp only [hstarted, hbytes, hfits, if_true]
    rfl

end

/-! ## One frame at most -/

theorem Header.bytes_unique {header header' : Header} {rest rest' : List Byte}
    (h : header.bytes ++ rest = header'.bytes ++ rest') :
    header.final = header'.final ∧ header.opcode = header'.opcode ∧
      header.form = header'.form ∧ header.length = header'.length ∧ rest = rest' := by
  -- read both with a limit neither is over
  have hread := readLength_header ⟨header.length + header'.length, 0⟩ header rest
  have hread' := readLength_header ⟨header.length + header'.length, 0⟩ header' rest'
  rw [if_neg (fun hlong => by simp only at hlong; omega)] at hread hread'
  have hcons : flagged 0x80 header.final header.opcode =
        flagged 0x80 header'.final header'.opcode ∧
      flagged 0x80 header.masked (UInt8.ofNat (header.form.code header.length)) =
        flagged 0x80 header'.masked (UInt8.ofNat (header'.form.code header'.length)) := by
    simp only [Header.bytes, List.cons_append, List.cons.injEq] at h
    exact ⟨h.1, h.2.1⟩
  rw [h, hcons.2, hread'] at hread
  obtain ⟨hlength, hoffset⟩ := LengthRead.length.inj hread
  obtain ⟨-, hrest⟩ := List.append_inj h hoffset.symm
  obtain ⟨hfinal, -, hopcode⟩ := first_bits header.final header.opcode_lt
  obtain ⟨hfinal', -, hopcode'⟩ := first_bits header'.final header'.opcode_lt
  have hform : header.form = header'.form := by
    rw [header.length_bytes, header'.length_bytes] at hoffset
    cases hform : header.form <;> cases hform' : header'.form <;> simp [hform, hform'] at hoffset ⊢
  refine ⟨?_, ?_, hform, hlength.symm, hrest⟩
  · rw [← hfinal, ← hfinal', hcons.1]
  · rw [← hopcode, ← hopcode', hcons.1]

/-- **A stream begins with one frame at most.** -/
theorem Frame.bytes_unique {frame frame' : Frame} {rest rest' : List Byte}
    (h : frame.bytes ++ rest = frame'.bytes ++ rest') : frame = frame' ∧ rest = rest' := by
  obtain ⟨final, opcode, form, mask, payload, hlt, hmask, hfits⟩ := frame
  obtain ⟨final', opcode', form', mask', payload', hlt', hmask', hfits'⟩ := frame'
  simp only [Frame.bytes, List.append_assoc] at h
  obtain ⟨hfinal, hopcode, hform, hlength, hbody⟩ := Header.bytes_unique h
  simp only [Frame.header] at hfinal hopcode hform hlength hbody
  obtain ⟨rfl, hbody⟩ := List.append_inj hbody (hmask.trans hmask'.symm)
  have hmasked : (applyMask mask payload).length = (applyMask mask payload').length := by
    rw [length_applyMask, length_applyMask, hlength]
  obtain ⟨hpayload, hrest⟩ := List.append_inj hbody hmasked
  have heq : payload = payload' := by
    rw [← applyMask_applyMask mask payload, hpayload, applyMask_applyMask]
  subst hfinal hopcode hform heq
  exact ⟨rfl, hrest⟩

theorem Frame.bytes_ne_nil (frame : Frame) : frame.bytes ≠ [] := by
  rw [Frame.bytes, Header.bytes, List.cons_append]
  exact List.cons_ne_nil _ _

/-! ## What a client sends -/

/-- The payload of a frame, and how it is sent. -/
structure Fragment where
  form : LengthForm
  mask : List Byte
  payload : List Byte
  mask_length : mask.length = 4
  fits : form.Fits payload.length

def Fragment.frame (fragment : Fragment) (opcode : Byte) (final : Bool) (h : opcode < 16) : Frame :=
  ⟨final, opcode, fragment.form, fragment.mask, fragment.payload, h, fragment.mask_length,
    fragment.fits⟩

structure Control where
  ping : Bool
  fragment : Fragment

def Control.frame (control : Control) : Frame :=
  if control.ping then control.fragment.frame opcodePing true (by decide)
  else control.fragment.frame opcodePong true (by decide)

def Control.event (control : Control) : FrameEvent :=
  if control.ping then .ping control.fragment.payload else .pong

/-- What a client sends: a control frame, or a message in as many fragments as it likes,
with control frames before every fragment but the first. -/
inductive Sent where
  | control (control : Control)
  | message (text : String) (first : Fragment) (others : List (List Control × Fragment))
      (whole : first.payload ++ others.flatMap (·.2.payload) = encodeUtf8 text)

def continuations : List (List Control × Fragment) → List Frame
  | [] => []
  | (controls, fragment) :: others =>
    controls.map Control.frame ++
      fragment.frame opcodeContinuation others.isEmpty (by decide) :: continuations others

namespace Sent

def frames : Sent → List Frame
  | .control c => [c.frame]
  | .message _ first others _ =>
    first.frame opcodeText others.isEmpty (by decide) :: continuations others

/-- Its control frames, in order, and then the message. -/
def events : Sent → List FrameEvent
  | .control c => [c.event]
  | .message text _ others _ => others.flatMap (·.1.map Control.event) ++ [.text text]

/-- Within the limit of a message; so are the control frames. -/
def Within (options : FrameReaderOptions) : Sent → Prop
  | .control c => c.fragment.payload.length ≤ options.maxMessageBytes
  | .message text _ others _ => (encodeUtf8 text).length ≤ options.maxMessageBytes ∧
      ∀ other ∈ others, ∀ control ∈ other.1,
        control.fragment.payload.length ≤ options.maxMessageBytes

end Sent

section
variable {options : FrameReaderOptions}

theorem control_legal {control : Control} (held : Option (List Byte))
    (h : control.fragment.payload.length ≤ options.maxMessageBytes) :
    Legal options held control.frame := by
  cases hping : control.ping with
  | true =>
    rw [Control.frame, hping]
    exact .ping held _ rfl rfl h
  | false =>
    rw [Control.frame, hping]
    exact .pong held _ rfl rfl h

theorem afterFrame_control (held : Option (List Byte)) (control : Control) :
    afterFrame held control.frame = held := by
  cases hping : control.ping with
  | true =>
    rw [Control.frame, hping]
    rfl
  | false =>
    rw [Control.frame, hping]
    rfl

theorem afterAll_controls (held : Option (List Byte)) (controls : List Control) :
    afterAll afterFrame held (controls.map Control.frame) = held := by
  induction controls with
  | nil => rfl
  | cons control controls ih =>
    rw [List.map_cons, afterAll, List.foldl_cons, afterFrame_control]
    exact ih

theorem controls_legal (held : Option (List Byte)) {controls : List Control}
    (h : ∀ control ∈ controls, control.fragment.payload.length ≤ options.maxMessageBytes) :
    LegalAll afterFrame (Legal options) held (controls.map Control.frame) := by
  induction controls with
  | nil => trivial
  | cons control controls ih =>
    refine ⟨control_legal held (h control List.mem_cons_self), ?_⟩
    rw [afterFrame_control]
    exact ih fun other hmem => h other (List.mem_cons_of_mem _ hmem)

variable [LossyUtf8]

theorem yieldsFrame_control (held : Option (List Byte)) (control : Control) :
    yieldsFrame held control.frame = [control.event] := by
  cases hping : control.ping with
  | true =>
    rw [Control.frame, Control.event, hping]
    rfl
  | false =>
    rw [Control.frame, Control.event, hping]
    rfl

theorem yieldsAll_controls (held : Option (List Byte)) (controls : List Control) :
    yieldsAll afterFrame yieldsFrame held (controls.map Control.frame) =
      controls.map Control.event := by
  induction controls with
  | nil => rfl
  | cons control controls ih =>
    rw [List.map_cons, yieldsAll, yieldsFrame_control, afterFrame_control, ih]
    rfl

/-- **The fragments behind the first**, when `bytes` have come of the message. -/
theorem continuations_legal {text : String} {others : List (List Control × Fragment)}
    (hothers : others ≠ []) (hlength : (encodeUtf8 text).length ≤ options.maxMessageBytes)
    (hcontrols : ∀ other ∈ others, ∀ control ∈ other.1,
      control.fragment.payload.length ≤ options.maxMessageBytes)
    {bytes : List Byte} (hwhole : bytes ++ others.flatMap (·.2.payload) = encodeUtf8 text) :
    LegalAll afterFrame (Legal options) (some bytes) (continuations others) ∧
      afterAll afterFrame (some bytes) (continuations others) = none ∧
      yieldsAll afterFrame yieldsFrame (some bytes) (continuations others) =
        others.flatMap (·.1.map Control.event) ++ [.text text] := by
  induction others generalizing bytes with
  | nil => exact absurd rfl hothers
  | cons other others ih =>
    obtain ⟨controls, fragment⟩ := other
    rw [List.flatMap_cons, ← List.append_assoc] at hwhole
    have hfits : bytes.length + fragment.payload.length ≤ options.maxMessageBytes := by
      have hle := (List.sublist_append_left (bytes ++ fragment.payload)
        (others.flatMap (·.2.payload))).length_le
      rw [hwhole, List.length_append] at hle
      exact Nat.le_trans hle hlength
    have hlegal (final : Bool) : Legal options (some bytes)
        (fragment.frame opcodeContinuation final (by decide)) := .continuation bytes _ rfl hfits
    have hfirst := controls_legal (some bytes) (hcontrols _ List.mem_cons_self)
    rw [continuations]
    cases others with
    | nil =>
      rw [List.flatMap_nil, List.append_nil] at hwhole
      refine ⟨legalAll_append hfirst ?_, ?_, ?_⟩
      · rw [afterAll_controls]
        exact ⟨hlegal true, trivial⟩
      · rw [afterAll_append, afterAll_controls]
        rfl
      · rw [yieldsAll_append, yieldsAll_controls, afterAll_controls, List.flatMap_singleton]
        refine congrArg _ ?_
        rw [yieldsAll, continuations, yieldsAll, List.append_nil, ← decodeUtf8_encodeUtf8 text,
          ← hwhole]
        rfl
    | cons other others =>
      obtain ⟨hrun, hafter, hyields⟩ := ih (List.cons_ne_nil _ _)
        (fun other' hmem => hcontrols other' (List.mem_cons_of_mem _ hmem)) hwhole
      refine ⟨legalAll_append hfirst ?_, ?_, ?_⟩
      · rw [afterAll_controls]
        exact ⟨hlegal false, hrun⟩
      · rw [afterAll_append, afterAll_controls]
        exact hafter
      · rw [yieldsAll_append, yieldsAll_controls, afterAll_controls, List.flatMap_cons,
          List.append_assoc, ← hyields]
        rfl

/-- **What a client sends may come, and says what was sent.** -/
theorem sent_legal {sent : Sent} (h : sent.Within options) :
    LegalAll afterFrame (Legal options) none sent.frames ∧
      afterAll afterFrame none sent.frames = none ∧
      yieldsAll afterFrame yieldsFrame none sent.frames = sent.events := by
  cases sent with
  | control control =>
    refine ⟨⟨control_legal none h, trivial⟩, afterFrame_control none control, ?_⟩
    rw [Sent.frames, yieldsAll, yieldsFrame_control]
    rfl
  | message text first others whole =>
    obtain ⟨hlength, hcontrols⟩ := h
    have hfirst : first.payload.length ≤ options.maxMessageBytes := by
      refine Nat.le_trans ?_ hlength
      rw [← whole, List.length_append]
      exact Nat.le_add_right _ _
    rw [Sent.frames]
    cases others with
    | nil =>
      rw [List.flatMap_nil, List.append_nil] at whole
      refine ⟨⟨.text _ rfl hfirst, trivial⟩, rfl, ?_⟩
      rw [continuations, yieldsAll, yieldsAll, List.append_nil, Sent.events, List.flatMap_nil,
        List.nil_append, ← decodeUtf8_encodeUtf8 text, ← whole]
      rfl
    | cons other others =>
      obtain ⟨hrun, hafter, hyields⟩ :=
        continuations_legal (List.cons_ne_nil _ _) hlength hcontrols whole
      refine ⟨⟨.text _ rfl hfirst, hrun⟩, hafter, ?_⟩
      rw [Sent.events, ← hyields]
      rfl

/-- **And so does everything it sends, one after the other.** -/
theorem conversation_legal {conversation : List Sent}
    (h : ∀ sent ∈ conversation, sent.Within options) :
    LegalAll afterFrame (Legal options) none (conversation.flatMap Sent.frames) ∧
      afterAll afterFrame none (conversation.flatMap Sent.frames) = none ∧
      yieldsAll afterFrame yieldsFrame none (conversation.flatMap Sent.frames) =
        conversation.flatMap Sent.events := by
  induction conversation with
  | nil => exact ⟨trivial, rfl, rfl⟩
  | cons sent conversation ih =>
    obtain ⟨hlegal, hafter, hyields⟩ := sent_legal (h sent List.mem_cons_self)
    obtain ⟨hlegal', hafter', hyields'⟩ :=
      ih fun other hmem => h other (List.mem_cons_of_mem _ hmem)
    rw [List.flatMap_cons, List.flatMap_cons]
    refine ⟨legalAll_append hlegal ?_, ?_, ?_⟩
    · rwa [hafter]
    · rwa [afterAll_append, hafter]
    · rw [yieldsAll_append, hafter, hyields, hyields']

/-! ## The stream -/

/-- **What is behind the frames that may come**: nothing whole, a header that is refused, or
a frame that is. -/
inductive Ending (options : FrameReaderOptions) (held : Option (List Byte)) (rest : List Byte) :
    List FrameEvent → Prop
  | waiting (hrefused : ∀ code reason, ¬Refused options rest code reason)
      (hframe : ∀ (frame : Frame) behind, rest ≠ frame.bytes ++ behind) :
      Ending options held rest []
  | refused (code : Nat) (reason : String) (h : Refused options rest code reason) :
      Ending options held rest [.fault code reason]
  | frame (frame : Frame) (behind : List Byte) (event : FrameEvent)
      (hrest : rest = frame.bytes ++ behind) (h : Refusal options held frame event) :
      Ending options held rest [event]

/-- The next frame is a part of a pong, or of a close. -/
def SplitControlNext (rest : List Byte) : Prop :=
  ∃ (frame : Frame) (behind : List Byte), rest = frame.bytes ++ behind ∧ frame.SplitControl

omit [LossyUtf8] in
theorem Refused.frame {frame : Frame} (behind : List Byte)
    (h : options.maxMessageBytes < frame.payload.length) :
    Refused options (frame.bytes ++ behind) 1009 "Frame too large" := by
  rw [Frame.bytes, List.append_assoc]
  exact .tooLarge frame.header _ (.inl rfl) h

theorem drain_ending {s : FragmentState} {held : Option (List Byte)} {rest : List Byte}
    (hkeeps : Keeps s held)
    (hlast : ∀ (frame : Frame) behind, rest = frame.bytes ++ behind → ¬Legal options held frame)
    (hsplit : ¬SplitControlNext rest) :
    Ending options held rest (drain (frameDecoder options) s rest).1 := by
  rcases @readFrame_cases _ options rest with hmore | ⟨code, reason, hrefused⟩ | hframe
  · have hnext : (frameDecoder options).next s rest = .more := by
      rw [frameDecoder_next, nextFrame, hmore]
    rw [drain_more _ hnext]
    refine .waiting (fun code reason hrefused => ?_) fun frame behind hrest => ?_
    · rw [frameDecoder_next, nextFrame_refused hrefused] at hnext
      cases hnext
    · by_cases hlength : frame.payload.length ≤ options.maxMessageBytes
      · rcases nextFrame_frame options hlength s with ⟨_, _, -, hread⟩ | ⟨_, -, hstop⟩
        · rw [hrest, frameDecoder_next, hread] at hnext
          cases hnext
        · rw [hrest, frameDecoder_next, hstop] at hnext
          cases hnext
      · have hrefused := Refused.frame behind (Nat.not_le.mp hlength)
        rw [hrest, frameDecoder_next, nextFrame_refused hrefused] at hnext
        cases hnext
  · have hnext : (frameDecoder options).next s rest = .stop [.fault code reason] :=
      nextFrame_refused hrefused s
    rw [drain_stop _ hnext]
    exact .refused code reason hrefused
  · obtain ⟨frame, behind, hlength, hrest⟩ := hframe
    rcases legal_or_refusal held hlength (fun h => hsplit ⟨frame, behind, hrest, h⟩) with
      hlegal | ⟨event, hrefusal⟩
    · exact absurd hlegal (hlast frame behind hrest)
    · have hnext : (frameDecoder options).next s rest = .stop [event] := by
        rw [hrest]
        exact nextFrame_refusal behind hkeeps hlength hrefusal
      rw [drain_stop _ hnext]
      exact .frame frame behind event hrest hrefusal

theorem drain_frames {frames : List Frame}
    (hlegal : LegalAll afterFrame (Legal options) none frames) (rest : List Byte) :
    ∃ s, Keeps s (afterAll afterFrame none frames) ∧
      drain (frameDecoder options) .idle (frames.flatMap Frame.bytes ++ rest) =
        (yieldsAll afterFrame yieldsFrame none frames ++ (drain (frameDecoder options) s rest).1,
          (drain (frameDecoder options) s rest).2) := by
  have hkeeps : Keeps .idle none := rfl
  exact drain_items (frameDecoder options) nextFrame_legal hkeeps hlegal rest

/-- **WebSocket frames are read back exactly.** As long as no push is over the limit, and
none is of chunks that leave room for one frame: what a client sends comes in order, with
every way of cutting messages into fragments and the stream into chunks; two ways of cutting
one stream yield the same; and of any stream what the longest run of frames that may come
says is yielded, and then nothing but the answer to what follows, a part of a pong or of a
close apart. -/
theorem frames_read_back (options : FrameReaderOptions) :
    (∀ (conversation : List Sent) (chunks : List (List Byte)),
      (∀ sent ∈ conversation, sent.Within options) → NeverOver options .new chunks →
      chunks.flatten = (conversation.flatMap Sent.frames).flatMap Frame.bytes →
      pushAll options .new chunks = conversation.flatMap Sent.events) ∧
    (∀ chunks chunks' : List (List Byte), chunks.flatten = chunks'.flatten →
      NeverOver options .new chunks → NeverOver options .new chunks' →
      pushAll options .new chunks = pushAll options .new chunks') ∧
    (∀ chunks : List (List Byte), NeverOver options .new chunks →
      ∃ frames rest ending, chunks.flatten = frames.flatMap Frame.bytes ++ rest ∧
        LegalAll afterFrame (Legal options) none frames ∧
        (∀ other, LegalAll afterFrame (Legal options) none other →
          other.flatMap Frame.bytes <+: chunks.flatten → other <+: frames) ∧
        pushAll options .new chunks = yieldsAll afterFrame yieldsFrame none frames ++ ending ∧
        (¬SplitControlNext rest →
          Ending options (afterAll afterFrame none frames) rest ending)) ∧
    ∀ chunks : List (List Byte), (∀ chunk ∈ chunks,
        chunk.length + options.maxMessageBytes + 13 ≤ options.maxBufferBytes) →
      NeverOver options .new chunks := by
  refine ⟨fun conversation chunks hwithin hover hflatten => ?_,
    fun chunks chunks' hflatten hover hover' => ?_, fun chunks hover => ?_,
    fun chunks hchunks => neverOver_of_chunks rfl hchunks⟩
  · obtain ⟨hlegal, hafter, hyields⟩ := conversation_legal hwithin
    obtain ⟨s, hkeeps, hdrain⟩ := drain_frames hlegal []
    rw [hafter] at hkeeps
    obtain rfl : s = .idle := hkeeps
    have hend : (frameDecoder options).next .idle [] = .more := rfl
    rw [pushAll_eq hover, hflatten, ← hyields, ← List.append_nil (List.flatMap _ _), hdrain,
      drain_more _ hend, List.append_nil]
  · rw [pushAll_eq hover, pushAll_eq hover', hflatten]
  · have hrun : ∃ frames rest, chunks.flatten = frames.flatMap Frame.bytes ++ rest ∧
        LegalAll afterFrame (Legal options) none frames ∧ ∀ frame behind,
          rest = Frame.bytes frame ++ behind →
            ¬Legal options (afterAll afterFrame none frames) frame :=
      exists_run Frame.bytes_ne_nil none chunks.flatten
    obtain ⟨frames, rest, hstream, hlegal, hlast⟩ := hrun
    obtain ⟨s, hkeeps, hdrain⟩ := drain_frames hlegal rest
    refine ⟨frames, rest, (drain (frameDecoder options) s rest).1, hstream, hlegal,
      fun other hother hprefix => ?_, ?_, drain_ending hkeeps hlast⟩
    · obtain ⟨behind, hbehind⟩ := hprefix
      exact prefix_of_run Frame.bytes_unique (hbehind.trans hstream) hlast hother
    · rw [pushAll_eq hover, hstream, hdrain]

end

/-! ## On fixed streams -/

/-- A ping, and a message in two fragments with a ping between them. -/
def greeting : List Sent :=
  [.control ⟨true, ⟨.short, [1, 2, 3, 4], [7], rfl, (by decide : 1 < 126)⟩⟩,
    .message "hi" ⟨.short, [0, 0, 0, 0], [104], rfl, (by decide : 1 < 126)⟩
      [([⟨true, ⟨.short, [5, 6, 7, 8], [8], rfl, (by decide : 1 < 126)⟩⟩],
        ⟨.medium, [9, 9, 9, 9], [105], rfl, (by decide : 1 < 256 * 256)⟩)] (by decide)]

def greetingBytes : List Byte := (greeting.flatMap Sent.frames).flatMap Frame.bytes

theorem frames_read_back_greeting :
    @pushAll replacement ⟨1024, 2048⟩ .new [greetingBytes.take 9, greetingBytes.drop 9] =
      [.ping [7], .ping [8], .text "hi"] := by
  have hroom : ∀ chunk ∈ [greetingBytes.take 9, greetingBytes.drop 9],
      chunk.length + 1024 + 13 ≤ 2048 := by decide
  have hwithin : ∀ sent ∈ greeting, sent.Within ⟨1024, 2048⟩ := by
    intro sent hmem
    simp only [greeting, List.mem_cons, List.not_mem_nil, or_false] at hmem
    rcases hmem with rfl | rfl
    · exact (by decide : 1 ≤ 1024)
    · refine ⟨by decide, fun other hother control hcontrol => ?_⟩
      simp only [List.mem_cons, List.not_mem_nil, or_false] at hother
      obtain rfl := hother
      simp only [List.mem_cons, List.not_mem_nil, or_false] at hcontrol
      obtain rfl := hcontrol
      exact (by decide : 1 ≤ 1024)
  have hover := (@frames_read_back replacement ⟨1024, 2048⟩).2.2.2 _ hroom
  have hflatten : [greetingBytes.take 9, greetingBytes.drop 9].flatten = greetingBytes := by
    rw [List.flatten_cons, List.flatten_singleton, List.take_append_drop]
  exact (@frames_read_back replacement ⟨1024, 2048⟩).1 greeting _ hwithin hover hflatten

/-- `"hi"` in one frame. -/
def hiFrame : List Byte := [0x81, 0x82, 0, 0, 0, 0, 104, 105]

def binaryFrame : List Byte := [0x82, 0x80, 0, 0, 0, 0]

def longPing : List Byte := [0x89, 0xfe, 0, 126, 0, 0, 0, 0] ++ List.replicate 126 0

/-- **Not of every stream, and not by itself.** The reader goes on behind a fault when it is
pushed more; three messages that fit one by one are refused in one push; and a ping of 126
bytes is read. -/
theorem frames_not_always :
    ((@push replacement ⟨1024, 2048⟩ .new binaryFrame).1 =
        [.fault 1003 "Binary frames are not accepted"] ∧
      (@push replacement ⟨1024, 2048⟩
        (@push replacement ⟨1024, 2048⟩ .new binaryFrame).2 hiFrame).1 = [.text "hi"]) ∧
    (@pushAll replacement ⟨4, 16⟩ .new [hiFrame, hiFrame, hiFrame] =
        [.text "hi", .text "hi", .text "hi"] ∧
      @pushAll replacement ⟨4, 16⟩ .new [hiFrame ++ hiFrame ++ hiFrame] =
        [.fault 1009 "Frame too large"]) ∧
    @pushAll replacement ⟨1024, 2048⟩ .new [longPing] = [.ping (List.replicate 126 0)] := by
  decide +kernel

end AgenticGit.Gateway
