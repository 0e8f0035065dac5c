import RpcFramework.Common.EpollStream

/-!
# Sending responses

`sendResponse` hands a frame to a non-blocking socket once, and says whether the kernel
took all of it.  What the kernel does not take is dropped, but the connection stays open,
so the next response is written where the rest of the frame should have been.

## Main definitions

* `EpollServer.sendResponse` — one call, with the answer of the kernel.
* `EpollServer.sendResponses` — one call after the other on a connection.
* `EpollServer.FrameAligned` — what is written is the frames of the responses that were
  reported as sent, and then at most a piece of one.
* `EpollServer.Unbroken` — when that is so.

## Main results

* `EpollServer.frameAligned_iff` — **responses stay aligned exactly while nothing is written
  behind a broken frame.**
* `EpollServer.delivers_iff` — **a response that was sent is received** where it is neither
  empty nor too long, and so is a message of a `TcpConnection`.
-/

namespace EpollServer

/-- `sendResponse` on an open connection to which `written` went before: whether it reports
the response as sent, and what has been written then. -/
def sendResponse (written data : Bytes) (sent : ℤ) : Bool × Bytes :=
  let message := TcpConnection.frame data
  if 0 < sent then (decide (sent = message.length), written ++ message.take sent.toNat)
  else (false, written)

/-- A call of `sendResponse`, with what the kernel answers to it: at most the length of the
frame, and nothing positive for an error. -/
structure SendCall where
  data : Bytes
  sent : ℤ
  sent_le : sent ≤ (TcpConnection.frame data).length

/-- The calls, one after the other: the responses reported as sent, and all that is written. -/
def sendResponses : Bytes → List SendCall → List Bytes × Bytes
  | written, [] => ([], written)
  | written, call :: calls =>
      let (success, written) := sendResponse written call.data call.sent
      let (reported, written) := sendResponses written calls
      (if success then call.data :: reported else reported, written)

/-- What is written decodes to the responses reported as sent, and once a frame is
incomplete nothing follows. -/
def FrameAligned (calls : List SendCall) : Prop :=
  (extractMessages (sendResponses [] calls).2).1 = (sendResponses [] calls).1 ∧
    ∀ pre post, calls = pre ++ post → (extractMessages (sendResponses [] pre).2).2 ≠ [] →
      (sendResponses [] calls).2 = (sendResponses [] pre).2

namespace SendCall

variable (c : SendCall)

/-- The kernel takes the whole frame. -/
def Full : Prop := c.sent = (TcpConnection.frame c.data).length

/-- The kernel takes a piece of the frame. -/
def Short : Prop := 0 < c.sent ∧ c.sent < (TcpConnection.frame c.data).length

instance : Decidable c.Full := inferInstanceAs (Decidable (_ = _))
instance : Decidable c.Short := inferInstanceAs (Decidable (_ ∧ _))

/-- What the call writes. -/
def bytes : Bytes := if 0 < c.sent then (TcpConnection.frame c.data).take c.sent.toNat else []

end SendCall

/-- Responses that are sent fit the length of their header; of a frame that is broken off
the reader misses something; and behind it the kernel takes nothing. -/
def Unbroken (calls : List SendCall) : Prop :=
  (∀ c ∈ calls, c.Full → c.data.length < 2 ^ 32) ∧
    (∀ c ∈ calls, c.Short → c.sent < (4 + c.data.length % 2 ^ 32 : ℕ)) ∧
    calls.Pairwise fun c c' => c.Short → c'.sent ≤ 0

/-! ### What the calls write -/

section Output

variable {c : SendCall} {calls : List SendCall}

theorem length_frame (data : Bytes) : (TcpConnection.frame data).length = 4 + data.length := by
  rw [TcpConnection.frame, List.length_append, length_be32]

theorem sendResponses_append (written : Bytes) (calls : List SendCall) :
    sendResponses written calls =
      ((sendResponses [] calls).1, written ++ (sendResponses [] calls).2) := by
  induction calls generalizing written with
  | nil => simp [sendResponses]
  | cons c calls ih =>
    simp only [sendResponses, sendResponse]
    by_cases hpos : 0 < c.sent
    · simp only [if_pos hpos, List.nil_append]
      rw [ih (written ++ _), ih ((TcpConnection.frame c.data).take _), List.append_assoc]
    · simp only [if_neg hpos]
      rw [ih written]

theorem written_cons :
    (sendResponses [] (c :: calls)).2 = c.bytes ++ (sendResponses [] calls).2 := by
  simp only [sendResponses, sendResponse, SendCall.bytes]
  by_cases hpos : 0 < c.sent
  · simp only [if_pos hpos, List.nil_append]
    rw [sendResponses_append]
  · simp only [if_neg hpos, List.nil_append]

theorem reported_cons : (sendResponses [] (c :: calls)).1 =
    if c.Full then c.data :: (sendResponses [] calls).1 else (sendResponses [] calls).1 := by
  have hlen := length_frame c.data
  by_cases hfull : c.Full
  · have hsent : c.sent = (TcpConnection.frame c.data).length := hfull
    rw [if_pos hfull]
    simp only [sendResponses, sendResponse, if_pos (show 0 < c.sent by omega),
      decide_eq_true hsent, if_true, List.nil_append]
    rw [sendResponses_append]
  · have hsent : ¬ c.sent = (TcpConnection.frame c.data).length := hfull
    rw [if_neg hfull]
    by_cases hpos : 0 < c.sent
    · simp only [sendResponses, sendResponse, if_pos hpos, decide_eq_false hsent,
        Bool.false_eq_true, if_false, List.nil_append]
      rw [sendResponses_append]
    · simp only [sendResponses, sendResponse, if_neg hpos, Bool.false_eq_true, if_false]

theorem bytes_eq_nil_iff : c.bytes = [] ↔ c.sent ≤ 0 := by
  have hlen := length_frame c.data
  unfold SendCall.bytes
  split
  · next hpos =>
    rw [← List.length_eq_zero_iff, List.length_take]
    omega
  · next hpos => simp only [true_iff]; omega

theorem written_eq_nil_iff : (sendResponses [] calls).2 = [] ↔ ∀ c ∈ calls, c.sent ≤ 0 := by
  induction calls with
  | nil => simp [sendResponses]
  | cons c calls ih =>
    rw [written_cons, List.append_eq_nil_iff, bytes_eq_nil_iff, ih, List.forall_mem_cons]

theorem reported_eq_nil (h : (sendResponses [] calls).2 = []) :
    (sendResponses [] calls).1 = [] := by
  induction calls with
  | nil => rfl
  | cons c calls ih =>
    rw [written_cons, List.append_eq_nil_iff] at h
    have hlen := length_frame c.data
    have hnot : ¬ c.Full := by
      have hle := bytes_eq_nil_iff.mp h.1
      unfold SendCall.Full
      omega
    rw [reported_cons, if_neg hnot, ih h.2]

/-- What the calls write begins with what the first of them do. -/
theorem written_append (pre post : List SendCall) :
    (sendResponses [] (pre ++ post)).2 =
      (sendResponses [] pre).2 ++ (sendResponses [] post).2 := by
  induction pre with
  | nil => rfl
  | cons c pre ih => rw [List.cons_append, written_cons, written_cons, ih, List.append_assoc]

end Output

/-! ### What the reader makes of it -/

section Decode

variable {c : SendCall} {calls : List SendCall}

/-- A call that writes at least a header. -/
theorem bytes_of_le (h : 4 ≤ c.sent) :
    c.bytes = be32 c.data.length ++ c.data.take (c.sent.toNat - 4) := by
  rw [SendCall.bytes, if_pos (by omega), TcpConnection.frame, List.take_append, length_be32,
    List.take_of_length_le (by rw [length_be32]; omega)]

theorem length_bytes (h : 0 ≤ c.sent) : c.bytes.length = c.sent.toNat := by
  have hle := c.sent_le
  unfold SendCall.bytes
  split
  · rw [List.length_take]
    omega
  · have hzero : c.sent = 0 := by omega
    simp [hzero]

/-- The reader finds no message in a piece of a frame that is too short. -/
theorem drain_bytes_of_lt (hpos : 0 < c.sent) (h : c.sent < (4 + c.data.length % 2 ^ 32 : ℕ)) :
    messageDecoder.drain c.bytes = ([], c.bytes) := by
  refine StreamDecoder.drain_of_none _ ?_
  have hlen := length_bytes (c := c) (by omega)
  show extractMessage c.bytes = none
  unfold extractMessage
  split
  · next hfour =>
    have hread : readBe32 c.bytes = c.data.length % 2 ^ 32 := by
      rw [bytes_of_le (by omega)]
      exact readBe32_be32 _ _
    simp only [hread]
    rw [if_pos (by omega)]
  · rfl

/-- The reader finds a message in what is long enough. -/
theorem exists_extractMessage (h : (4 + c.data.length % 2 ^ 32 : ℕ) ≤ c.sent) :
    ∃ message rest, extractMessage c.bytes = some (message, rest) ∧ message.length < 2 ^ 32 := by
  have hlen := length_bytes (c := c) (by omega)
  have hread : readBe32 c.bytes = c.data.length % 2 ^ 32 := by
    rw [bytes_of_le (by omega)]
    exact readBe32_be32 _ _
  refine ⟨(c.bytes.drop 4).take (c.data.length % 2 ^ 32),
    c.bytes.drop (4 + c.data.length % 2 ^ 32), ?_, ?_⟩
  · unfold extractMessage
    rw [if_pos (by omega)]
    simp only [hread]
    rw [if_neg (by omega)]
  · have hmod := Nat.mod_lt c.data.length (show 0 < 2 ^ 32 by norm_num)
    rw [List.length_take]
    omega

theorem SendCall.Full.le (h : c.Full) : ((4 + c.data.length % 2 ^ 32 : ℕ) : ℤ) ≤ c.sent := by
  have hmod := Nat.mod_le c.data.length (2 ^ 32)
  rw [h, length_frame]
  omega

theorem drain_ne_nil (h : (4 + c.data.length % 2 ^ 32 : ℕ) ≤ c.sent) :
    (messageDecoder.drain c.bytes).1 ≠ [] := by
  obtain ⟨message, rest, hsome, -⟩ := exists_extractMessage h
  rw [messageDecoder.drain_of_some hsome]
  simp

/-- Once a frame is incomplete nothing follows. -/
def Stops (calls : List SendCall) : Prop :=
  ∀ pre post, calls = pre ++ post →
    (messageDecoder.drain (sendResponses [] pre).2).2 ≠ [] →
      (sendResponses [] calls).2 = (sendResponses [] pre).2

theorem frameAligned_iff_drain : FrameAligned calls ↔
    (messageDecoder.drain (sendResponses [] calls).2).1 = (sendResponses [] calls).1 ∧
      Stops calls := by
  simp only [FrameAligned, Stops, extractMessages_eq_drain]

theorem drain_nil : messageDecoder.drain [] = ([], []) := StreamDecoder.drain_of_none _ rfl

/-- Behind a call that leaves the stream aligned, the rest goes on as from the start. -/
theorem stops_cons_of_aligned (h : (messageDecoder.drain c.bytes).2 = []) :
    Stops (c :: calls) ↔ Stops calls := by
  have hdrain : ∀ more, (messageDecoder.drain (c.bytes ++ more)).2 =
      (messageDecoder.drain more).2 := by
    intro more
    rw [messageDecoder.drain_append, h, List.nil_append]
  constructor
  · rintro hstops pre post rfl hne
    have heq := hstops (c :: pre) post rfl (by rw [written_cons, hdrain]; exact hne)
    rw [written_cons, written_cons, List.append_cancel_left_eq] at heq
    exact heq
  · intro hstops pre post hcalls hne
    cases pre with
    | nil => exact absurd (congrArg Prod.snd drain_nil) hne
    | cons c' pre =>
      obtain ⟨rfl, rfl⟩ := List.cons.inj hcalls
      rw [written_cons, hdrain] at hne
      rw [written_cons, written_cons, hstops pre post rfl hne]

/-- Behind a call that does not, nothing must be written. -/
theorem stops_cons_of_broken (h : (messageDecoder.drain c.bytes).2 ≠ []) :
    Stops (c :: calls) ↔ (sendResponses [] calls).2 = [] := by
  constructor
  · intro hstops
    have hone : (sendResponses [] [c]).2 = c.bytes := by
      rw [written_cons]
      exact List.append_nil _
    have heq := hstops [c] calls rfl (by rw [hone]; exact h)
    rw [written_cons, hone] at heq
    exact List.append_right_eq_self.mp heq
  · intro hnil pre post hcalls hne
    cases pre with
    | nil => exact absurd (congrArg Prod.snd drain_nil) hne
    | cons c' pre =>
      obtain ⟨rfl, rfl⟩ := List.cons.inj hcalls
      have hboth : (sendResponses [] pre).2 ++ (sendResponses [] post).2 = [] := by
        rw [← written_append]
        exact hnil
      rw [written_cons, written_cons, hnil, (List.append_eq_nil_iff.mp hboth).1]

/-- As long as nothing follows an incomplete frame, the reader finds a message for each
response reported as sent. -/
theorem length_reported_le (h : Stops calls) :
    (sendResponses [] calls).1.length ≤
      (messageDecoder.drain (sendResponses [] calls).2).1.length := by
  induction calls with
  | nil => exact Nat.zero_le _
  | cons c calls ih =>
    have hfull : c.Full → 1 ≤ (messageDecoder.drain c.bytes).1.length :=
      fun hf => List.length_pos_iff.mpr (drain_ne_nil hf.le)
    have hcount : (sendResponses [] (c :: calls)).1.length ≤
        (messageDecoder.drain c.bytes).1.length + (sendResponses [] calls).1.length := by
      rw [reported_cons]
      split
      · next hf =>
        have hone := hfull hf
        rw [List.length_cons]
        omega
      · omega
    rw [written_cons, messageDecoder.drain_append, List.length_append]
    by_cases haligned : (messageDecoder.drain c.bytes).2 = []
    · have hrest := ih ((stops_cons_of_aligned haligned).mp h)
      rw [haligned, List.nil_append]
      omega
    · have hnil := (stops_cons_of_broken haligned).mp h
      rw [reported_eq_nil hnil, List.length_nil] at hcount
      omega

end Decode

/-! ### Alignment -/

section Aligned

variable {c : SendCall} {calls : List SendCall}

theorem not_full_of_le (h : c.sent ≤ 0) : ¬ c.Full := by
  unfold SendCall.Full
  rw [length_frame]
  omega

theorem not_short_of_le (h : c.sent ≤ 0) : ¬ c.Short := fun hs => absurd hs.1 (not_lt.mpr h)

/-- An error changes nothing. -/
theorem frameAligned_cons_of_error (h : c.sent ≤ 0) :
    FrameAligned (c :: calls) ↔ FrameAligned calls := by
  have hbytes := bytes_eq_nil_iff.mpr h
  have haligned : (messageDecoder.drain c.bytes).2 = [] := by rw [hbytes, drain_nil]
  rw [frameAligned_iff_drain, frameAligned_iff_drain, stops_cons_of_aligned haligned, written_cons,
    hbytes, List.nil_append, reported_cons, if_neg (not_full_of_le h)]

theorem frameAligned_cons_of_full (h : c.Full) :
    FrameAligned (c :: calls) ↔ c.data.length < 2 ^ 32 ∧ FrameAligned calls := by
  have hle := h.le
  have hbytes : c.bytes = TcpConnection.frame c.data := by
    have hsent : c.sent.toNat = (TcpConnection.frame c.data).length := by
      rw [h]
      exact Int.toNat_natCast _
    rw [SendCall.bytes, if_pos (by omega), hsent, List.take_length]
  by_cases hlen : c.data.length < 2 ^ 32
  · have hdrain : ∀ more, messageDecoder.drain (c.bytes ++ more) =
        (c.data :: (messageDecoder.drain more).1, (messageDecoder.drain more).2) := by
      intro more
      rw [hbytes]
      exact messageDecoder.drain_of_some (extractMessage_frame hlen more)
    have haligned : (messageDecoder.drain c.bytes).2 = [] := by
      have hself := hdrain []
      rw [List.append_nil, drain_nil] at hself
      rw [hself]
    rw [frameAligned_iff_drain, frameAligned_iff_drain, stops_cons_of_aligned haligned,
      written_cons, hdrain, reported_cons, if_pos h, List.cons_inj_right, and_iff_right hlen]
  · -- the header holds another length, so the reader finds another message
    refine ⟨fun haligned => ?_, fun hboth => absurd hboth.1 hlen⟩
    obtain ⟨hmessages, -⟩ := frameAligned_iff_drain.mp haligned
    obtain ⟨message, rest, hsome, hshort⟩ := exists_extractMessage hle
    rw [written_cons, messageDecoder.drain_of_some (messageDecoder.next_append _ hsome),
      reported_cons, if_pos h] at hmessages
    have heq : message = c.data := (List.cons.inj hmessages).1
    rw [heq] at hshort
    exact absurd hshort hlen

theorem frameAligned_cons_of_short (h : c.Short) :
    FrameAligned (c :: calls) ↔
      c.sent < (4 + c.data.length % 2 ^ 32 : ℕ) ∧ ∀ c' ∈ calls, c'.sent ≤ 0 := by
  have hnot : ¬ c.Full := fun hf => absurd hf (ne_of_lt h.2)
  rw [frameAligned_iff_drain, written_cons, reported_cons, if_neg hnot, ← written_eq_nil_iff]
  by_cases hlt : c.sent < (4 + c.data.length % 2 ^ 32 : ℕ)
  · have hdrain := drain_bytes_of_lt h.1 hlt
    have hbroken : (messageDecoder.drain c.bytes).2 ≠ [] := by
      rw [hdrain]
      exact fun hnil => absurd (bytes_eq_nil_iff.mp hnil) (not_le.mpr h.1)
    rw [stops_cons_of_broken hbroken, and_iff_right hlt]
    refine ⟨fun hboth => hboth.2, fun hnil => ⟨?_, hnil⟩⟩
    rw [hnil, List.append_nil, hdrain, reported_eq_nil hnil]
  · -- the reader finds a message that nobody reported
    refine ⟨?_, fun hboth => absurd hboth.1 hlt⟩
    rintro ⟨hmessages, hstops⟩
    have hne := List.length_pos_iff.mpr (drain_ne_nil (not_lt.mp hlt))
    rw [messageDecoder.drain_append] at hmessages
    have hlen := congrArg List.length hmessages
    rw [List.length_append] at hlen
    by_cases haligned : (messageDecoder.drain c.bytes).2 = []
    · rw [haligned, List.nil_append] at hlen
      have hle := length_reported_le ((stops_cons_of_aligned haligned).mp hstops)
      omega
    · rw [reported_eq_nil ((stops_cons_of_broken haligned).mp hstops), List.length_nil] at hlen
      omega

/-- **Responses stay aligned exactly while nothing is written behind a broken frame.** -/
theorem frameAligned_iff (calls : List SendCall) : FrameAligned calls ↔ Unbroken calls := by
  induction calls with
  | nil =>
    refine iff_of_true (frameAligned_iff_drain.mpr ⟨?_, ?_⟩) ⟨by simp, by simp, .nil⟩
    · exact congrArg Prod.fst drain_nil
    · intro pre post hnil hne
      rw [(List.append_eq_nil_iff.mp hnil.symm).1]
  | cons c calls ih =>
    simp only [Unbroken, List.forall_mem_cons, List.pairwise_cons]
    by_cases hpos : 0 < c.sent
    · rcases lt_or_eq_of_le c.sent_le with hlt | hfull
      · -- a piece of the frame
        have hshort : c.Short := ⟨hpos, hlt⟩
        have hnot : ¬ c.Full := ne_of_lt hlt
        rw [frameAligned_cons_of_short hshort]
        constructor
        · rintro ⟨hless, hnone⟩
          refine ⟨⟨fun hf => absurd hf hnot, ?_⟩, ⟨fun _ => hless, ?_⟩,
            fun c' hc' _ => hnone c' hc', ?_⟩
          · exact fun c' hc' hf => absurd hf (not_full_of_le (hnone c' hc'))
          · exact fun c' hc' hs => absurd hs (not_short_of_le (hnone c' hc'))
          · refine List.Pairwise.imp_of_mem (R := fun _ _ => True) ?_ ?_
            · exact fun hc' _ _ hs => absurd hs (not_short_of_le (hnone _ hc'))
            · exact List.pairwise_of_forall fun _ _ => trivial
        · rintro ⟨-, ⟨hless, -⟩, hnone, -⟩
          exact ⟨hless hshort, fun c' hc' => hnone c' hc' hshort⟩
      · -- the frame as a whole
        have hnot : ¬ c.Short := fun hs => absurd hfull (ne_of_lt hs.2)
        rw [frameAligned_cons_of_full hfull, ih]
        constructor
        · rintro ⟨hlen, hfulls, hshorts, hpairs⟩
          exact ⟨⟨fun _ => hlen, hfulls⟩, ⟨fun hs => absurd hs hnot, hshorts⟩,
            fun _ _ hs => absurd hs hnot, hpairs⟩
        · rintro ⟨⟨hlen, hfulls⟩, ⟨-, hshorts⟩, -, hpairs⟩
          exact ⟨hlen hfull, hfulls, hshorts, hpairs⟩
    · -- an error
      have hle := not_lt.mp hpos
      have hnot := not_full_of_le hle
      have hnot' := not_short_of_le hle
      rw [frameAligned_cons_of_error hle, ih]
      constructor
      · rintro ⟨hfulls, hshorts, hpairs⟩
        exact ⟨⟨fun hf => absurd hf hnot, hfulls⟩, ⟨fun hs => absurd hs hnot', hshorts⟩,
          fun _ _ hs => absurd hs hnot', hpairs⟩
      · rintro ⟨⟨-, hfulls⟩, ⟨-, hshorts⟩, -, hpairs⟩
        exact ⟨hfulls, hshorts, hpairs⟩

end Aligned

/-- The kernel takes three bytes of the first response, and the second one as a whole. -/
def sampleCalls : List SendCall :=
  [⟨utf8 "A", 3, by decide⟩, ⟨utf8 "B", 5, by decide⟩]

/-- The reader takes the three bytes and the first of the next header for the header of an
empty message. -/
theorem sampleCalls_notAligned : ¬ FrameAligned sampleCalls := by
  rintro ⟨hmessages, -⟩
  revert hmessages
  decide

/-! ### What is received -/

/-- Whatever the answers of the kernel, a message for which `TcpConnection::send` returns
true is what the other end receives next. -/
def SendDelivers (data : Bytes) : Prop :=
  ∀ (conn conn' : TcpConnection) (answers : List ℤ) (written more : Bytes),
    conn.sendInParts data answers = some (true, conn') →
      conn'.outgoing = conn.outgoing ++ written →
        TcpConnection.Delivers (written ++ more) data

/-- The same of a response for which `sendResponse` returns true. -/
def ResponseDelivers (data : Bytes) : Prop :=
  ∀ (before after : Bytes) (sent : ℤ) (written more : Bytes),
    sendResponse before data sent = (true, after) → after = before ++ written →
      TcpConnection.Delivers (written ++ more) data

theorem sendDelivers_iff (data : Bytes) : SendDelivers data ↔ TcpConnection.Passes data := by
  constructor
  · intro h
    have hsent := h {} _ _ (TcpConnection.frame data) [] (TcpConnection.sendInParts_whole data) rfl
    exact (TcpConnection.delivers_frame_iff data []).mp hsent
  · intro hpass conn conn' answers written more hsend hwritten
    have hframe : written = TcpConnection.frame data := by
      cases hconn : conn.connected with
      | true =>
        rw [TcpConnection.sendInParts_eq_true hsend, TcpConnection.send, if_pos hconn] at hwritten
        exact (List.append_cancel_left hwritten).symm
      | false => cases answers <;> simp [TcpConnection.sendInParts, hconn] at hsend
    rw [hframe]
    exact (TcpConnection.delivers_frame_iff data more).mpr hpass

theorem responseDelivers_iff (data : Bytes) :
    ResponseDelivers data ↔ TcpConnection.Passes data := by
  have hlen := length_frame data
  constructor
  · intro h
    have hsent := h [] (TcpConnection.frame data) (TcpConnection.frame data).length
      (TcpConnection.frame data) [] ?_ rfl
    · exact (TcpConnection.delivers_frame_iff data []).mp hsent
    · rw [sendResponse]
      simp only [Int.toNat_natCast, List.take_length, List.nil_append, decide_true]
      rw [if_pos (by omega)]
  · rintro hpass before after sent written more hsend rfl
    rw [sendResponse] at hsend
    split at hsend
    · obtain ⟨hall, hwritten⟩ := Prod.mk.inj hsend
      have hsent : sent.toNat = (TcpConnection.frame data).length := by
        rw [of_decide_eq_true hall]
        exact Int.toNat_natCast _
      rw [hsent, List.take_length] at hwritten
      rw [← List.append_cancel_left hwritten]
      exact (TcpConnection.delivers_frame_iff data more).mpr hpass
    · simp at hsend

/-- **What is sent is received** where it is neither empty nor above the reader's limit,
whichever of the two wrote it. -/
theorem delivers_iff (data : Bytes) :
    (SendDelivers data ↔ TcpConnection.Passes data) ∧
      (ResponseDelivers data ↔ TcpConnection.Passes data) :=
  ⟨sendDelivers_iff data, responseDelivers_iff data⟩

/-- A message without content, such as a `ServiceDiscoveryResponse` without services, is
sent but not received. -/
theorem empty_notDelivered : ¬ SendDelivers [] ∧ ¬ ResponseDelivers [] := by
  constructor
  · intro h
    have hsent := h {} _ _ (TcpConnection.frame []) [] (TcpConnection.sendInParts_whole []) rfl
    revert hsent
    rw [TcpConnection.Delivers]
    decide
  · intro h
    have hsent := h [] (TcpConnection.frame []) 4 (TcpConnection.frame []) [] rfl rfl
    revert hsent
    rw [TcpConnection.Delivers]
    decide

end EpollServer
