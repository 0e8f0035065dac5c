import RpcFramework.Lib.Wire

/-!
# Connections and serialization

A `TcpConnection` carries a message as a frame: the length in four bytes, network
order, and then the bytes.  Reading takes a length of zero, or one above a
mebibyte, for a broken connection, so not every message that can be sent can be
received.

## Main definitions

* `TcpConnection`, `TcpConnection.send`, `TcpConnection.receive`.
* `TcpConnection.sendInParts` — `send`, with the answers of the kernel.
* `Serializer.serialize`, `Serializer.deserialize`.

## Main results

* `TcpConnection.delivers_frame_iff` — **the reader gets what was written** where the
  message is neither empty nor too long.
* `TcpConnection.transmit_eq` — what the other end receives of a sent message.
-/

open Wire

/-- One end of a connection: the bytes the other end has written and nobody has
read yet, and the bytes written here.  The stream in `incoming` ends where it
does: a read that wants more fails. -/
structure TcpConnection where
  connected : Bool := true
  incoming : Bytes := []
  outgoing : Bytes := []
  deriving DecidableEq, Repr

namespace TcpConnection

/-- The bytes `send` writes for a message; the length goes out as a `uint32_t`. -/
def frame (data : Bytes) : Bytes := be32 data.length ++ data

/-- `send`, on a connection whose socket takes every byte. -/
def send (conn : TcpConnection) (data : Bytes) : Bool × TcpConnection :=
  if conn.connected then (true, { conn with outgoing := conn.outgoing ++ frame data })
  else (false, conn)

/-- The loop of `send` over the kernel's answers: the number of bytes taken, or an error that
is not positive.  While an answer is outstanding the call has not returned; otherwise it
returns whether all was taken, having written what was. -/
def sendLoop : Bytes → List ℤ → Option (Bool × Bytes)
  | data, [] => if data = [] then some (true, []) else none
  | data, sent :: answers =>
      if data = [] then some (true, [])
      else if sent ≤ 0 then some (false, [])
      else
        (sendLoop (data.drop sent.toNat) answers).map fun p =>
          (p.1, data.take sent.toNat ++ p.2)

/-- `send`, with the answers of the kernel to one `::send` after the other. -/
def sendInParts (conn : TcpConnection) (data : Bytes) : List ℤ → Option (Bool × TcpConnection)
  | [] => if conn.connected then none else some (false, conn)
  | sent :: answers =>
      if ¬ conn.connected then some (false, conn)
      else if sent ≠ 4 then
        some (false,
          { conn with
            connected := false
            outgoing := conn.outgoing ++ (be32 data.length).take sent.toNat })
      else
        (sendLoop data answers).map fun p =>
          (p.1,
            { conn with
              connected := p.1
              outgoing := conn.outgoing ++ (be32 data.length ++ p.2) })

/-- The largest message `receive` accepts. -/
def maxMessage : ℕ := 1024 * 1024

/-- The message at the front of the incoming stream, and what is behind it. -/
def readMessage (conn : TcpConnection) : Option (Bytes × Bytes) :=
  if ¬ conn.connected ∨ conn.incoming.length < 4 then none
  else
    let len := readBe32 conn.incoming
    let body := conn.incoming.drop 4
    if len = 0 ∨ maxMessage < len ∨ body.length < len then none
    else some (body.take len, body.drop len)

/-- What `receive` returns: the empty string is how failure is reported. -/
def receive (conn : TcpConnection) : Bytes := conn.readMessage.elim [] Prod.fst

/-- What `receive` leaves behind: after a failure the connection is not used again. -/
def afterReceive (conn : TcpConnection) : TcpConnection :=
  conn.readMessage.elim { conn with connected := false } fun p => { conn with incoming := p.2 }

/-- The other end of a connection a message was just sent on. -/
def peerOf (conn : TcpConnection) : TcpConnection where
  incoming := conn.outgoing

/-- What is received on a fresh connection on which the other end sends a message. -/
def transmit (data : Bytes) : Bytes := receive (peerOf (({} : TcpConnection).send data).2)

/-- The message survives the frame: it is neither empty nor above the limit. -/
def Passes (data : Bytes) : Prop := data ≠ [] ∧ data.length ≤ maxMessage

instance (data : Bytes) : Decidable (Passes data) := inferInstanceAs (Decidable (_ ∧ _))

/-- In how many parts a message is taken makes no difference once all of it is. -/
theorem sendLoop_eq_true {data written : Bytes} {answers : List ℤ}
    (h : sendLoop data answers = some (true, written)) : written = data := by
  induction answers generalizing data written with
  | nil =>
    rw [sendLoop] at h
    split at h
    · next hnil => rw [hnil, ← (Prod.mk.inj (Option.some.inj h)).2]
    · simp at h
  | cons sent answers ih =>
    rw [sendLoop] at h
    split at h
    · next hnil => rw [hnil, ← (Prod.mk.inj (Option.some.inj h)).2]
    · split at h
      · simp at h
      · obtain ⟨⟨ok, rest⟩, hrest, heq⟩ := Option.map_eq_some_iff.mp h
        obtain ⟨rfl, rfl⟩ := Prod.mk.inj heq
        rw [ih hrest, List.take_append_drop]

/-- **A `send` that returns true** has written the frame of the message. -/
theorem sendInParts_eq_true {conn conn' : TcpConnection} {data : Bytes} {answers : List ℤ}
    (h : conn.sendInParts data answers = some (true, conn')) :
    conn' = (conn.send data).2 := by
  cases answers with
  | nil =>
    rw [sendInParts] at h
    split at h <;> simp at h
  | cons sent answers =>
    rw [sendInParts] at h
    split at h
    · simp at h
    · next hconn =>
      split at h
      · simp at h
      · obtain ⟨⟨ok, rest⟩, hrest, heq⟩ := Option.map_eq_some_iff.mp h
        obtain ⟨rfl, rfl⟩ := Prod.mk.inj heq
        rw [not_not] at hconn
        rw [sendLoop_eq_true hrest, send, if_pos hconn]
        simp only [frame, hconn]

/-- The kernel may take a message as a whole. -/
theorem sendInParts_whole (data : Bytes) :
    ({} : TcpConnection).sendInParts data [4, data.length] =
      some (true, (({} : TcpConnection).send data).2) := by
  have hloop : sendLoop data [(data.length : ℤ)] = some (true, data) := by
    by_cases hnil : data = []
    · rw [hnil]
      rfl
    · have hpos := List.length_pos_iff.mpr hnil
      rw [sendLoop, if_neg hnil, if_neg (by omega), Int.toNat_natCast, List.drop_length,
        List.take_length]
      simp [sendLoop]
  simp [sendInParts, hloop, send, frame]

/-- The message read off a stream that begins with a frame. -/
theorem readMessage_frame (data more : Bytes) :
    readMessage { incoming := frame data ++ more } =
      if data.length % 2 ^ 32 = 0 ∨ maxMessage < data.length % 2 ^ 32 then none
      else some (data.take (data.length % 2 ^ 32), data.drop (data.length % 2 ^ 32) ++ more) := by
  have hread : readBe32 (frame data ++ more) = data.length % 2 ^ 32 := by
    rw [frame, List.append_assoc]
    exact readBe32_be32 _ _
  have hbody : (frame data ++ more).drop 4 = data ++ more := rfl
  have hle : data.length % 2 ^ 32 ≤ data.length := Nat.mod_le _ _
  have hlen : ¬ (frame data ++ more).length < 4 := by
    simp only [frame, List.length_append, length_be32]
    omega
  have hshort : ¬ (data ++ more).length < data.length % 2 ^ 32 := by
    rw [List.length_append]
    omega
  simp only [readMessage, not_true_eq_false, hlen, or_false, if_false, hread, hbody, hshort,
    List.take_append_of_le_length hle, List.drop_append_of_le_length hle]

/-- The reader of a stream gets the message and goes on behind it. -/
def Delivers (stream data : Bytes) : Prop :=
  receive { incoming := stream } = data ∧
    (afterReceive { incoming := stream }).connected = true

/-- **The reader gets what was written** exactly where the message passes. -/
theorem delivers_frame_iff (data more : Bytes) :
    Delivers (frame data ++ more) data ↔ Passes data := by
  rw [Delivers, receive, afterReceive, readMessage_frame]
  constructor
  · rintro ⟨hdata, hconn⟩
    split at hdata
    · next hbad =>
      rw [if_pos hbad] at hconn
      simp at hconn
    · next hgood =>
      push Not at hgood
      rw [Option.elim_some] at hdata
      -- the length in the header is that of the message
      have hlen := congrArg List.length hdata
      rw [List.length_take] at hlen
      have hmod := Nat.mod_le data.length (2 ^ 32)
      refine ⟨?_, by omega⟩
      rintro rfl
      exact hgood.1 rfl
  · rintro ⟨hne, hmax⟩
    have hpos := List.length_pos_iff.mpr hne
    have hmod : data.length % 2 ^ 32 = data.length :=
      Nat.mod_eq_of_lt (lt_of_le_of_lt hmax (by norm_num [maxMessage]))
    rw [hmod, if_neg (by omega), Option.elim_some, Option.elim_some]
    exact ⟨List.take_length, rfl⟩

/-- **What the other end receives**: the message where it passes, nothing otherwise. -/
theorem transmit_eq {data : Bytes} (h : data.length < 2 ^ 32) :
    transmit data = if Passes data then data else [] := by
  have hpeer : peerOf (({} : TcpConnection).send data).2 = { incoming := frame data ++ [] } := by
    simp only [send, peerOf, if_true, List.nil_append, List.append_nil]
  rw [transmit, hpeer, receive, readMessage_frame, Nat.mod_eq_of_lt h]
  by_cases hpass : Passes data
  · obtain ⟨hne, hmax⟩ := hpass
    have hpos := List.length_pos_iff.mpr hne
    rw [if_neg (by omega), if_pos ⟨hne, hmax⟩, Option.elim_some]
    exact List.take_length
  · have hbad : data.length = 0 ∨ maxMessage < data.length := by
      by_contra hcon
      push Not at hcon
      exact hpass ⟨by simpa using hcon.1, hcon.2⟩
    rw [if_neg hpass, if_pos hbad]
    rfl

end TcpConnection

namespace Serializer

variable {μ : Type*}

/-- The size a message may have to be serialized. -/
def maxSize : ℕ := 2 ^ 31 - 1

/-- `serialize`: the empty string is how failure is reported. -/
def serialize (c : Codec μ) (m : μ) : Bytes :=
  if (c.encode m).length ≤ maxSize then c.encode m else []

/-- `deserialize`. -/
def deserialize (c : Codec μ) (data : Bytes) : Option μ := c.decode data

theorem length_serialize_lt (c : Codec μ) (m : μ) : (serialize c m).length < 2 ^ 32 := by
  unfold serialize
  split
  · next h => exact lt_of_le_of_lt h (by norm_num [maxSize])
  · simp

/-- What passes a frame of a serialized message is the message's own bytes. -/
theorem passes_serialize_iff (c : Codec μ) (m : μ) :
    TcpConnection.Passes (serialize c m) ↔ TcpConnection.Passes (c.encode m) := by
  unfold serialize
  split
  · exact Iff.rfl
  · next h =>
    refine ⟨fun hp => absurd rfl hp.1, fun hp => absurd ?_ h⟩
    exact hp.2.trans (by norm_num [TcpConnection.maxMessage, maxSize])

/-- A message whose bytes pass a frame is serialized to them. -/
theorem serialize_of_passes {c : Codec μ} {m : μ} (h : TcpConnection.Passes (c.encode m)) :
    serialize c m = c.encode m :=
  if_pos (h.2.trans (by norm_num [TcpConnection.maxMessage, maxSize]))

theorem le_maxLength_of_passes {data : Bytes} (h : TcpConnection.Passes data) :
    data.length ≤ maxLength :=
  h.2.trans (by norm_num [TcpConnection.maxMessage, maxLength])

/-- What a server receives of a message a client serialized and sent. -/
theorem transmit_serialize (c : Codec μ) (m : μ) :
    TcpConnection.transmit (serialize c m) =
      if TcpConnection.Passes (c.encode m) then c.encode m else [] := by
  rw [TcpConnection.transmit_eq (length_serialize_lt c m)]
  by_cases h : TcpConnection.Passes (c.encode m)
  · rw [if_pos ((passes_serialize_iff c m).mpr h), if_pos h, serialize_of_passes h]
  · rw [if_neg (mt (passes_serialize_iff c m).mp h), if_neg h]

end Serializer
