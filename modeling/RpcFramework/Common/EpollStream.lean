import RpcFramework.Common.Network
import RpcFramework.Lib.Stream

/-!
# Reassembly of requests

`EpollServer` keeps a receive buffer for each connection.  Whenever bytes arrive
they are appended to it, and `extractMessages` takes the complete messages off its
front, one after the other.

## Main definitions

* `EpollServer.extractMessages` — the loop over the receive buffer.
* `EpollServer.handleClientData` — the loop over `recv`.
* `EpollServer.messageDecoder` — the body of the first loop, as a decoder of a stream.

## Main results

* `EpollServer.handleClientData_frames` — payloads cut into chunks in any way come out
  as they went in.
* `EpollServer.handleClientData_exact` — the same together with the independence of the
  chunks and what is left in the buffer, for every stream.
-/

namespace EpollServer

/-- One round of the loop of `extractMessages`: the message at the front of the
buffer, if it is complete, and the buffer without it. -/
def extractMessage (receiveBuffer : Bytes) : Option (Bytes × Bytes) :=
  if 4 ≤ receiveBuffer.length then
    let messageLen := readBe32 receiveBuffer
    let totalLen := 4 + messageLen
    if receiveBuffer.length < totalLen then none
    else some ((receiveBuffer.drop 4).take messageLen, receiveBuffer.drop totalLen)
  else none

/-- The loop itself, with the messages found so far; a round takes at least the four
bytes of a header, so the length of the buffer bounds their number. -/
def extractLoop : ℕ → List Bytes → Bytes → List Bytes × Bytes
  | 0, messages, receiveBuffer => (messages, receiveBuffer)
  | fuel + 1, messages, receiveBuffer =>
      match extractMessage receiveBuffer with
      | none => (messages, receiveBuffer)
      | some (message, rest) => extractLoop fuel (messages ++ [message]) rest

/-- `extractMessages`: the complete messages of the buffer, and what it then holds. -/
def extractMessages (receiveBuffer : Bytes) : List Bytes × Bytes :=
  extractLoop receiveBuffer.length [] receiveBuffer

/-- `handleClientData` on a connection with the given buffer, when `recv` returns the
given chunks one after the other: the messages it hands to the pool, and the buffer
it leaves.  An empty chunk is the end of the stream, and ends the loop. -/
def handleClientData (receiveBuffer : Bytes) : List Bytes → List Bytes × Bytes
  | [] => ([], receiveBuffer)
  | chunk :: chunks =>
      if chunk = [] then ([], receiveBuffer)
      else
        let (messages, rest) := extractMessages (receiveBuffer ++ chunk)
        let (more, rest) := handleClientData rest chunks
        (messages ++ more, rest)

/-! ### The loop as a decoder -/

theorem extractMessage_length {buf message rest : Bytes}
    (h : extractMessage buf = some (message, rest)) : rest.length < buf.length := by
  unfold extractMessage at h
  split at h
  · simp only [Option.ite_none_left_eq_some, Option.some.injEq, Prod.mk.injEq] at h
    obtain ⟨-, -, rfl⟩ := h
    rw [List.length_drop]
    omega
  · simp at h

theorem extractMessage_append {buf message rest : Bytes} (more : Bytes)
    (h : extractMessage buf = some (message, rest)) :
    extractMessage (buf ++ more) = some (message, rest ++ more) := by
  unfold extractMessage at h ⊢
  split at h
  · next hlen =>
    simp only [Option.ite_none_left_eq_some, Option.some.injEq, Prod.mk.injEq] at h
    obtain ⟨hcomplete, rfl, rfl⟩ := h
    have hread := readBe32_append hlen more
    have hlen' : (buf ++ more).length = buf.length + more.length := List.length_append
    rw [if_pos (by omega), hread, if_neg (by omega), List.drop_append_of_le_length hlen,
      List.drop_append_of_le_length (by omega),
      List.take_append_of_le_length (by rw [List.length_drop]; omega)]
  · simp at h

/-- The front message of a buffer, as a decoder. -/
def messageDecoder : StreamDecoder UInt8 Bytes where
  next := extractMessage
  next_length := extractMessage_length
  next_append := extractMessage_append

theorem extractLoop_eq (fuel : ℕ) (messages : List Bytes) (buf : Bytes) :
    extractLoop fuel messages buf =
      (messages ++ (messageDecoder.drainAux fuel buf).1, (messageDecoder.drainAux fuel buf).2) := by
  induction fuel generalizing messages buf with
  | zero => simp [extractLoop, StreamDecoder.drainAux]
  | succ fuel ih =>
    have hnext : messageDecoder.next buf = extractMessage buf := rfl
    cases h : extractMessage buf with
    | none => simp [extractLoop, StreamDecoder.drainAux, hnext, h]
    | some p => simp [extractLoop, StreamDecoder.drainAux, hnext, h, ih]

theorem extractMessages_eq_drain (buf : Bytes) :
    extractMessages buf = messageDecoder.drain buf := by
  rw [extractMessages, extractLoop_eq, List.nil_append]
  rfl

theorem handleClientData_eq_feed {chunks : List Bytes} (h : ∀ chunk ∈ chunks, chunk ≠ [])
    (buf : Bytes) : handleClientData buf chunks = messageDecoder.feed buf chunks := by
  induction chunks generalizing buf with
  | nil => rfl
  | cons chunk chunks ih =>
    have hrest := ih fun c hc => h c (List.mem_cons_of_mem _ hc)
    rw [handleClientData, if_neg (h chunk List.mem_cons_self), extractMessages_eq_drain,
      StreamDecoder.feed]
    simp only [hrest]

/-- Whether the chunks arrive in one call or in several makes no difference. -/
theorem handleClientData_append {cs ds : List Bytes} (hc : ∀ chunk ∈ cs, chunk ≠ [])
    (hd : ∀ chunk ∈ ds, chunk ≠ []) (buf : Bytes) :
    handleClientData buf (cs ++ ds) =
      ((handleClientData buf cs).1 ++ (handleClientData (handleClientData buf cs).2 ds).1,
        (handleClientData (handleClientData buf cs).2 ds).2) := by
  have hcd : ∀ chunk ∈ cs ++ ds, chunk ≠ [] := by
    intro chunk hmem
    rcases List.mem_append.mp hmem with h | h
    · exact hc chunk h
    · exact hd chunk h
  rw [handleClientData_eq_feed hcd, handleClientData_eq_feed hc, handleClientData_eq_feed hd,
    StreamDecoder.feed_append]

/-- Every stream: the messages and the leftover are those of the whole of it. -/
theorem handleClientData_eq_drain {chunks : List Bytes} (h : ∀ chunk ∈ chunks, chunk ≠ []) :
    handleClientData [] chunks = messageDecoder.drain chunks.flatten := by
  rw [handleClientData_eq_feed h, StreamDecoder.feed_eq_drain _ rfl, List.nil_append]

/-- The front message of a frame with anything behind it is the payload. -/
theorem extractMessage_frame {payload : Bytes} (h : payload.length < 2 ^ 32) (more : Bytes) :
    extractMessage (TcpConnection.frame payload ++ more) = some (payload, more) := by
  have hbody : (be32 payload.length ++ (payload ++ more)).drop 4 = payload ++ more := rfl
  have hrest : (be32 payload.length ++ (payload ++ more)).drop (4 + payload.length) = more := by
    rw [← List.drop_drop, hbody, List.drop_left]
  have hlen : (be32 payload.length ++ (payload ++ more)).length =
      4 + (payload.length + more.length) := by
    rw [List.length_append, List.length_append, length_be32]
  rw [TcpConnection.frame, List.append_assoc, extractMessage, if_pos (by omega)]
  simp only [readBe32_be32_of_lt h, hbody, hrest, List.take_left]
  rw [if_neg (by omega)]

/-- **Payloads come out as they went in**, however the concatenation of their frames
is cut into chunks, and nothing stays in the buffer. -/
theorem handleClientData_frames {payloads chunks : List Bytes}
    (hpayloads : ∀ payload ∈ payloads, payload.length < 2 ^ 32)
    (hchunks : ∀ chunk ∈ chunks, chunk ≠ [])
    (hcut : chunks.flatten = payloads.flatMap TcpConnection.frame) :
    handleClientData [] chunks = (payloads, []) := by
  rw [handleClientData_eq_drain hchunks, hcut]
  exact StreamDecoder.drain_flatMap _ rfl fun payload hmem =>
    extractMessage_frame (hpayloads payload hmem)

/-- The leftover does not begin with the frame of any payload. -/
theorem frame_not_prefix_leftover {payload : Bytes} (h : payload.length < 2 ^ 32)
    {chunks : List Bytes} (hchunks : ∀ chunk ∈ chunks, chunk ≠ []) :
    ¬ TcpConnection.frame payload <+: (handleClientData [] chunks).2 := by
  rintro ⟨more, hmore⟩
  have hnone := messageDecoder.next_leftover chunks.flatten
  rw [← handleClientData_eq_drain hchunks, ← hmore] at hnone
  have hsome : messageDecoder.next (TcpConnection.frame payload ++ more) = some (payload, more) :=
    extractMessage_frame h more
  rw [hsome] at hnone
  simp at hnone

/-- **Reassembly is exact and independent of the chunks.**  Payloads come out as they
went in; any two ways of cutting one stream give the same messages and the same
leftover; and the leftover holds no complete frame. -/
theorem handleClientData_exact :
    (∀ payloads chunks : List Bytes, (∀ payload ∈ payloads, payload.length < 2 ^ 32) →
      (∀ chunk ∈ chunks, chunk ≠ []) →
      chunks.flatten = payloads.flatMap TcpConnection.frame →
        handleClientData [] chunks = (payloads, [])) ∧
      (∀ chunks chunks' : List Bytes, (∀ chunk ∈ chunks, chunk ≠ []) →
        (∀ chunk ∈ chunks', chunk ≠ []) → chunks.flatten = chunks'.flatten →
          handleClientData [] chunks = handleClientData [] chunks') ∧
      ∀ (chunks : List Bytes) (payload : Bytes), (∀ chunk ∈ chunks, chunk ≠ []) →
        payload.length < 2 ^ 32 →
          ¬ TcpConnection.frame payload <+: (handleClientData [] chunks).2 := by
  refine ⟨fun _ _ => handleClientData_frames, fun chunks chunks' h h' hcut => ?_, ?_⟩
  · rw [handleClientData_eq_drain h, handleClientData_eq_drain h', hcut]
  · intro chunks payload hchunks hpayload
    exact frame_not_prefix_leftover hpayload hchunks

/-- An empty frame and one of two bytes, cut inside the second header and inside the
second body. -/
theorem handleClientData_exact_sample :
    handleClientData [] [[0, 0, 0, 0, 0, 0], [0, 2, 7], [8]] = ([[], [7, 8]], []) :=
  handleClientData_exact.1 [[], [7, 8]] [[0, 0, 0, 0, 0, 0], [0, 2, 7], [8]] (by decide)
    (by decide) (by decide)

end EpollServer
