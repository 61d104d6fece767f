import Mathlib.Data.List.Basic
import Mathlib.Tactic.Common

/-!
# Frames on a stream

A message travels as a frame, its length in a header of fixed width before it.  The stream arrives
in chunks of any size.  Reading frame by frame from the chunks gives what splitting the whole stream
would, so that a loop that handles frames does the same however the stream is cut.
-/

variable {β : Type*}

/-- How lengths are written in front of messages. -/
structure FrameHeader (β : Type*) where
  width : ℕ
  write : ℕ → Option (List β)
  read : List β → ℕ
  width_pos : 0 < width
  length_of_write : ∀ {length header}, write length = some header → header.length = width
  read_of_write : ∀ {length header}, write length = some header → read header = length
  write_of_read : ∀ {header : List β}, header.length = width → write (read header) = some header

namespace FrameHeader

variable (header : FrameHeader β)

/-- A message behind its length; some messages are too long. -/
def frame (message : List β) : Option (List β) :=
  (header.write message.length).map fun length => length ++ message

/-- The first message of a stream and the rest, once its frame is complete. -/
def split? (stream : List β) : Option (List β × List β) :=
  if stream.length < header.width then none
  else
    let body := stream.drop header.width
    let length := header.read (stream.take header.width)
    if body.length < length then none else some (body.take length, body.drop length)

variable {header} {message stream rest : List β}

theorem split?_eq_some (found : header.split? stream = some (message, rest)) :
    ∃ prefixed, stream = prefixed ++ (message ++ rest) ∧ prefixed.length = header.width ∧
      header.read prefixed = message.length := by
  simp only [split?] at found
  split_ifs at found with short missing
  cases found
  refine ⟨stream.take header.width, ?_, ?_, ?_⟩
  · rw [List.take_append_drop, List.take_append_drop]
  · rw [List.length_take]
    omega
  · rw [List.length_take]
    omega

theorem split?_of_append {prefixed : List β} (width : prefixed.length = header.width)
    (length : header.read prefixed = message.length) :
    header.split? (prefixed ++ (message ++ rest)) = some (message, rest) := by
  have long : ¬ (prefixed ++ (message ++ rest)).length < header.width := by
    rw [List.length_append, width]
    omega
  have complete : ¬ (message ++ rest).length < message.length := by
    rw [List.length_append]
    omega
  rw [split?, if_neg long, ← width]
  simp only [List.drop_left, List.take_left, length, if_neg complete]

theorem split?_nil : header.split? [] = none := if_pos header.width_pos

theorem split?_frame {framed : List β} (is_frame : header.frame message = some framed)
    (rest : List β) : header.split? (framed ++ rest) = some (message, rest) := by
  obtain ⟨length, written, rfl⟩ := Option.map_eq_some_iff.mp is_frame
  rw [List.append_assoc]
  exact split?_of_append (header.length_of_write written) (header.read_of_write written)

theorem length_lt_of_split? (found : header.split? stream = some (message, rest)) :
    rest.length < stream.length := by
  obtain ⟨prefixed, rfl, width, _⟩ := split?_eq_some found
  have positive := header.width_pos
  simp only [List.length_append]
  omega

/-- Every stream consists of frames and the beginning of another one. -/
theorem exists_frames (stream : List β) : ∃ messages frames tail,
    List.Forall₂ (fun message framed => header.frame message = some framed) messages frames ∧
      stream = frames.flatten ++ tail ∧ header.split? tail = none := by
  induction length_eq : stream.length using Nat.strongRecOn generalizing stream with
  | ind length induction =>
      rcases found : header.split? stream with _ | ⟨message, rest⟩
      · exact ⟨[], [], stream, .nil, rfl, found⟩
      · obtain ⟨messages, frames, tail, framed, rfl, incomplete⟩ :=
          induction rest.length (length_eq ▸ length_lt_of_split? found) rest rfl
        obtain ⟨prefixed, rfl, width, read⟩ := split?_eq_some found
        have is_frame : header.frame message = some (prefixed ++ message) := by
          rw [frame, ← read, header.write_of_read width]
          rfl
        refine ⟨message :: messages, (prefixed ++ message) :: frames, tail,
          .cons is_frame framed, ?_, incomplete⟩
        rw [List.flatten_cons, List.append_assoc, List.append_assoc]

end FrameHeader

/-! ## Reading chunk by chunk -/

/-- A way to cut streams into chunks. -/
structure Chunking (β : Type*) where
  cut : List β → List (List β)
  flatten_cut : ∀ stream, (cut stream).flatten = stream
  ne_nil_of_mem : ∀ {stream chunk}, chunk ∈ cut stream → chunk ≠ []

theorem Chunking.cut_nil (chunking : Chunking β) : chunking.cut [] = [] := by
  refine List.eq_nil_iff_forall_not_mem.mpr fun chunk member => chunking.ne_nil_of_mem member ?_
  exact List.flatten_eq_nil_iff.mp (chunking.flatten_cut []) chunk member

namespace ChunkedReading

/-- Read a number of items.  An empty chunk is the end of the stream; the error is the number of
items that were read before. -/
def recvExact : ℕ → List (List β) → Except ℕ (List β) × List (List β)
  | 0, chunks => (.ok [], chunks)
  | _ + 1, [] => (.error 0, [])
  | _ + 1, [] :: rest => (.error 0, rest)
  | size + 1, (item :: chunk) :: rest =>
      if chunk.length ≤ size then
        match recvExact (size - chunk.length) rest with
        | (.error got, left) => (.error (chunk.length + 1 + got), left)
        | (.ok items, left) => (.ok (item :: chunk ++ items), left)
      else (.ok (item :: chunk.take size), chunk.drop size :: rest)

/-- With enough items to come, the first ones of the stream are read, and the others are left. -/
theorem recvExact_of_le {size : ℕ} {chunks : List (List β)}
    (nonempty : ∀ chunk ∈ chunks, chunk ≠ []) (enough : size ≤ chunks.flatten.length) :
    ∃ left, recvExact size chunks = (.ok (chunks.flatten.take size), left) ∧
      left.flatten = chunks.flatten.drop size ∧ ∀ chunk ∈ left, chunk ≠ [] := by
  fun_induction recvExact size chunks with
  | case1 chunks => exact ⟨chunks, rfl, rfl, nonempty⟩
  | case2 size => cases enough
  | case3 size rest => exact absurd rfl (nonempty [] List.mem_cons_self)
  | case4 size item chunk rest fits got left read induction =>
      rw [List.flatten_cons, List.length_append, List.length_cons] at enough
      obtain ⟨others, reads, _⟩ := induction (List.forall_mem_cons.mp nonempty).2 (by omega)
      rw [read] at reads
      cases reads
  | case5 size item chunk rest fits items left read induction =>
      rw [List.flatten_cons, List.length_append, List.length_cons] at enough
      obtain ⟨others, reads, left_eq, left_nonempty⟩ :=
        induction (List.forall_mem_cons.mp nonempty).2 (by omega)
      rw [read] at reads
      cases reads
      have whole : (item :: chunk).length ≤ size + 1 := Nat.succ_le_succ fits
      refine ⟨left, ?_, ?_, left_nonempty⟩
      · rw [List.flatten_cons, List.take_append, List.take_of_length_le whole, List.length_cons,
          Nat.succ_sub_succ]
      · rw [left_eq, List.flatten_cons, List.drop_append, List.drop_of_length_le whole,
          List.length_cons, Nat.succ_sub_succ, List.nil_append]
  | case6 size item chunk rest long =>
      refine ⟨chunk.drop size :: rest, ?_, ?_, ?_⟩
      · rw [List.flatten_cons, List.cons_append, List.take_succ_cons,
          List.take_append_of_le_length (by omega)]
      · rw [List.flatten_cons, List.flatten_cons, List.cons_append, List.drop_succ_cons,
          List.drop_append_of_le_length (by omega)]
      · refine List.forall_mem_cons.mpr ⟨fun all_read => ?_, (List.forall_mem_cons.mp nonempty).2⟩
        exact long (List.drop_eq_nil_iff.mp all_read)

/-- With too few items to come, all of them are read before the error. -/
theorem recvExact_of_lt {size : ℕ} {chunks : List (List β)}
    (nonempty : ∀ chunk ∈ chunks, chunk ≠ []) (few : chunks.flatten.length < size) :
    (recvExact size chunks).1 = .error chunks.flatten.length := by
  fun_induction recvExact size chunks with
  | case1 chunks => cases few
  | case2 size => rfl
  | case3 size rest => exact absurd rfl (nonempty [] List.mem_cons_self)
  | case4 size item chunk rest fits got left read induction =>
      rw [List.flatten_cons, List.length_append, List.length_cons] at few ⊢
      have fails := induction (List.forall_mem_cons.mp nonempty).2 (by omega)
      rw [read] at fails
      rw [Except.error.inj fails]
  | case5 size item chunk rest fits items left read induction =>
      rw [List.flatten_cons, List.length_append, List.length_cons] at few
      have fails := induction (List.forall_mem_cons.mp nonempty).2 (by omega)
      rw [read] at fails
      cases fails
  | case6 size item chunk rest long =>
      rw [List.flatten_cons, List.length_append, List.length_cons] at few
      omega

/-- What was read is as long as wanted, and nothing else is missing. -/
theorem length_of_recvExact {size : ℕ} {chunks left : List (List β)} {items : List β}
    (read : recvExact size chunks = (.ok items, left)) :
    left.flatten.length + size = chunks.flatten.length := by
  fun_induction recvExact size chunks generalizing items left with
  | case1 chunks =>
      cases read
      rfl
  | case2 size => cases read
  | case3 size rest => cases read
  | case4 => cases read
  | case5 size item chunk rest fits others remaining first induction =>
      cases read
      have length_eq := induction first
      rw [List.flatten_cons, List.length_append, List.length_cons]
      omega
  | case6 size item chunk rest long =>
      cases read
      rw [List.flatten_cons, List.flatten_cons, List.length_append, List.length_append,
        List.length_drop, List.length_cons]
      omega

end ChunkedReading

/-! ## Reading frame by frame -/

/-- The stream ended early: how many items had come, of how many that were needed. -/
structure IncompleteRead where
  /-- The bytes that came. -/
  got : ℕ
  /-- The number of bytes that were asked for. -/
  needed : ℕ

namespace FrameHeader

open ChunkedReading

variable {σ : Type*} (header : FrameHeader β) (handle : σ → List β → σ × Bool)

/-- Read a frame: its header, and as many items as that says. -/
def readFrame (chunks : List (List β)) : Except IncompleteRead (List β) × List (List β) :=
  match recvExact header.width chunks with
  | (.error got, rest) => (.error ⟨got, header.width⟩, rest)
  | (.ok prefixed, rest) =>
      match recvExact (header.read prefixed) rest with
      | (.error got, left) => (.error ⟨got, header.read prefixed⟩, left)
      | (.ok message, left) => (.ok message, left)

variable {header} {chunks left : List (List β)} {message rest : List β}

theorem length_lt_of_readFrame (read : header.readFrame chunks = (.ok message, left)) :
    left.flatten.length < chunks.flatten.length := by
  rw [readFrame] at read
  split at read
  · cases read
  next first =>
    have first_length := length_of_recvExact first
    have positive := header.width_pos
    split at read
    · cases read
    next second =>
      cases read
      have second_length := length_of_recvExact second
      omega

/-- The first frame of the stream is read. -/
theorem readFrame_of_some (nonempty : ∀ chunk ∈ chunks, chunk ≠ [])
    (found : header.split? chunks.flatten = some (message, rest)) :
    ∃ left, header.readFrame chunks = (.ok message, left) ∧ left.flatten = rest ∧
      ∀ chunk ∈ left, chunk ≠ [] := by
  simp only [split?] at found
  split_ifs at found with short missing
  cases found
  obtain ⟨body, first, body_eq, body_nonempty⟩ := recvExact_of_le nonempty (Nat.not_lt.mp short)
  rw [← body_eq] at missing ⊢
  obtain ⟨left, second, left_eq, left_nonempty⟩ :=
    recvExact_of_le body_nonempty (Nat.not_lt.mp missing)
  refine ⟨left, ?_, left_eq, left_nonempty⟩
  simp only [readFrame, first, second]

/-- Without a complete frame the read fails. -/
theorem readFrame_of_none (nonempty : ∀ chunk ∈ chunks, chunk ≠ [])
    (waiting : header.split? chunks.flatten = none) :
    ∃ incomplete left, header.readFrame chunks = (.error incomplete, left) := by
  simp only [split?] at waiting
  split_ifs at waiting with short missing
  · have fails := recvExact_of_lt nonempty short
    rcases read : recvExact header.width chunks with ⟨outcome, left⟩
    rw [read] at fails
    simp only at fails
    refine ⟨⟨chunks.flatten.length, header.width⟩, left, ?_⟩
    simp only [readFrame, read, fails]
  · obtain ⟨body, first, body_eq, body_nonempty⟩ := recvExact_of_le nonempty (Nat.not_lt.mp short)
    rw [← body_eq] at missing
    have fails := recvExact_of_lt body_nonempty missing
    rcases read : recvExact (header.read (chunks.flatten.take header.width)) body with
      ⟨outcome, left⟩
    rw [read] at fails
    simp only at fails
    refine ⟨⟨body.flatten.length, header.read (chunks.flatten.take header.width)⟩, left, ?_⟩
    simp only [readFrame, first, read, fails]

/-- Nothing came. -/
theorem readFrame_nil : header.readFrame [] = (.error ⟨0, header.width⟩, []) := by
  obtain ⟨width, width_eq⟩ := Nat.exists_eq_succ_of_ne_zero (Nat.ne_of_gt header.width_pos)
  rw [readFrame, width_eq]
  rfl

/-! ## Handling frames -/

variable (header)

/-- Read frames and handle their messages, until the stream ends or a message closes it. -/
def serve (state : σ) (chunks : List (List β)) : σ :=
  match _read : header.readFrame chunks with
  | (.error _, _) => state
  | (.ok message, left) =>
      let handled := handle state message
      if handled.2 then serve handled.1 left else handled.1
  termination_by chunks.flatten.length
  decreasing_by exact length_lt_of_readFrame (by assumption)

/-- Handle messages in order until one closes the stream. -/
def handleAll : σ → List (List β) → σ
  | state, [] => state
  | state, message :: messages =>
      let handled := handle state message
      if handled.2 then handleAll handled.1 messages else handled.1

variable {header handle}

theorem serve_of_some (nonempty : ∀ chunk ∈ chunks, chunk ≠ []) {state : σ}
    (found : header.split? chunks.flatten = some (message, rest)) :
    ∃ left, left.flatten = rest ∧ (∀ chunk ∈ left, chunk ≠ []) ∧
      serve header handle state chunks =
        if (handle state message).2 then serve header handle (handle state message).1 left
        else (handle state message).1 := by
  obtain ⟨left, read, left_eq, left_nonempty⟩ := readFrame_of_some nonempty found
  refine ⟨left, left_eq, left_nonempty, ?_⟩
  rw [serve]
  split
  next fails =>
    rw [read] at fails
    cases fails
  next reads =>
    rw [read] at reads
    cases reads
    rfl

theorem serve_of_none (nonempty : ∀ chunk ∈ chunks, chunk ≠ []) {state : σ}
    (waiting : header.split? chunks.flatten = none) : serve header handle state chunks = state := by
  obtain ⟨incomplete, left, fails⟩ := readFrame_of_none nonempty waiting
  rw [serve]
  split
  · rfl
  next reads =>
    rw [fails] at reads
    cases reads

/-- The frames of a stream are handled in order, each once, until one closes it, however the stream
is cut. -/
theorem serve_frames {messages frames : List (List β)} {tail : List β} {state : σ}
    (framed : List.Forall₂ (fun message framed => header.frame message = some framed) messages
      frames) (incomplete : header.split? tail = none)
    (nonempty : ∀ chunk ∈ chunks, chunk ≠ []) (stream : chunks.flatten = frames.flatten ++ tail) :
    serve header handle state chunks = handleAll handle state messages := by
  induction framed generalizing state chunks with
  | nil =>
      apply serve_of_none nonempty
      rw [stream]
      exact incomplete
  | @cons message framed messages frames is_frame others induction =>
      have found : header.split? chunks.flatten = some (message, frames.flatten ++ tail) := by
        rw [stream, List.flatten_cons, List.append_assoc]
        exact split?_frame is_frame _
      obtain ⟨left, left_eq, left_nonempty, served⟩ := serve_of_some nonempty found
      rw [served, handleAll]
      split
      · exact induction left_nonempty left_eq
      · rfl

end FrameHeader
