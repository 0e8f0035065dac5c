import RpcFramework.Common.Network
import RpcFramework.Lib.Transition

/-!
# Descriptors of connections

A `TcpConnection` closes its descriptor when it is told to, and in its destructor if nobody
has.  It knows whether somebody has from `connected_`, which it also clears when a call on the
socket fails: then neither does.

## Main definitions

* `TcpConnection.receiveInParts` — `receive`, with the answers of the kernel.
* `Descriptor`, `Descriptor.step` — a connection and its descriptor; the system `descriptor`.
* `Descriptor.ClosedOnce` — at the end `::close` has been called once, whichever way it ends.
* `Descriptor.Call.Succeeds` — the kernel takes or gives all that a call asks for.

## Main results

* `Descriptor.descriptor_closedOnce_iff` — **when the descriptor is closed once.**
-/

open Wire

namespace TcpConnection

/-- `receive`, with the answers of the kernel to the two calls of `recv`: the bytes it gave, or
an error. -/
def receiveInParts (conn : TcpConnection) (header body : Option Bytes) : Bytes × TcpConnection :=
  if ¬ conn.connected then ([], conn)
  else
    let failed := ([], { conn with connected := false })
    match header with
    | none => failed
    | some header =>
        if header.length ≠ 4 then failed
        else
          let len := readBe32 header
          if len = 0 ∨ maxMessage < len then failed
          else
            match body with
            | none => failed
            | some body => if body.length ≠ len then failed else (body, conn)

end TcpConnection

/-- A connection, and how many times `::close` was called on its descriptor. -/
structure Descriptor where
  conn : TcpConnection := {}
  closed : ℕ := 0
  deriving DecidableEq, Repr

namespace Descriptor

/-- A call, with what the kernel answers. -/
inductive Call where
  | send (data : Bytes) (answers : List ℤ)
  | receive (header body : Option Bytes)
  | close
  deriving DecidableEq, Repr

def close (d : Descriptor) : Descriptor :=
  if d.conn.connected then ⟨{ d.conn with connected := false }, d.closed + 1⟩ else d

/-- The destructor. -/
def destroy (d : Descriptor) : Descriptor := d.close

/-- `removeConnection` closes the connection, and the last pointer to it is dropped. -/
def removeConnection (d : Descriptor) : Descriptor := d.close.destroy

def step (d : Descriptor) : Call → Option Descriptor
  | .send data answers =>
      (d.conn.sendInParts data answers).map fun p => { d with conn := p.2 }
  | .receive header body => some { d with conn := (d.conn.receiveInParts header body).2 }
  | .close => some d.close

/-- At its end, or when the pool removes it, the descriptor has been closed once. -/
def ClosedOnce (d : Descriptor) : Prop := d.destroy.closed = 1 ∧ d.removeConnection.closed = 1

instance (d : Descriptor) : Decidable d.ClosedOnce := inferInstanceAs (Decidable (_ ∧ _))

/-- The bytes the kernel takes before it answers with an error. -/
def taken (answers : List ℤ) : ℕ := ((answers.takeWhile (0 < ·)).map Int.toNat).sum

/-- The kernel takes the header and the data, or gives a header with a length that is accepted
and as many bytes. -/
def Call.Succeeds : Call → Prop
  | .send data answers => answers.head? = some 4 ∧ data.length ≤ taken answers.tail
  | .receive header body =>
      ∃ h ∈ header, h.length = 4 ∧ readBe32 h ≠ 0 ∧ readBe32 h ≤ TcpConnection.maxMessage ∧
        ∃ b ∈ body, b.length = readBe32 h
  | .close => True

instance (call : Call) : Decidable call.Succeeds := by
  unfold Call.Succeeds
  split <;> infer_instance

/-- As long as the connection was not closed, calls on it succeed. -/
def Intact (d : Descriptor) (call : Call) : Prop := d.conn.connected = true → call.Succeeds

instance (d : Descriptor) (call : Call) : Decidable (d.Intact call) :=
  inferInstanceAs (Decidable (_ → _))

end Descriptor

/-- A connection built on an open descriptor. -/
def descriptor : System Descriptor Descriptor.Call where
  init := {}
  step := Descriptor.step

namespace Descriptor

section Steps

variable {d d' : Descriptor} {call : Call}

/-- The loop of `send` ends well just if the kernel takes all of the data. -/
theorem sendLoop_eq_true_iff {data written : Bytes} {answers : List ℤ} {ok : Bool}
    (h : TcpConnection.sendLoop data answers = some (ok, written)) :
    ok = true ↔ data.length ≤ taken answers := by
  induction answers generalizing data written with
  | nil =>
    rw [TcpConnection.sendLoop] at h
    split at h
    · next hnil =>
      obtain ⟨rfl, -⟩ := Prod.mk.inj (Option.some.inj h)
      simp [hnil]
    · cases h
  | cons sent answers ih =>
    rw [TcpConnection.sendLoop] at h
    split at h
    · next hnil =>
      obtain ⟨rfl, -⟩ := Prod.mk.inj (Option.some.inj h)
      simp [hnil]
    · next hdata =>
      have hpos := List.length_pos_iff.mpr hdata
      split at h
      · next hfailed =>
        obtain ⟨rfl, -⟩ := Prod.mk.inj (Option.some.inj h)
        have hnothing : taken (sent :: answers) = 0 := by
          rw [taken, List.takeWhile_cons_of_neg (by simpa using hfailed)]
          rfl
        rw [hnothing]
        exact iff_of_false Bool.false_ne_true (by omega)
      · next hsent =>
        obtain ⟨⟨ok', rest⟩, hrest, heq⟩ := Option.map_eq_some_iff.mp h
        obtain ⟨rfl, -⟩ := Prod.mk.inj heq
        have hmore : taken (sent :: answers) = sent.toNat + taken answers := by
          rw [taken, List.takeWhile_cons_of_pos (by simpa using hsent), List.map_cons,
            List.sum_cons, taken]
        rw [ih hrest, hmore, List.length_drop]
        omega

/-- **A call on a connection** leaves it usable just if it succeeds. -/
theorem connected_step (hconn : d.conn.connected = true) (hne : call ≠ .close)
    (hstep : d.step call = some d') :
    d'.closed = d.closed ∧ (d'.conn.connected = true ↔ call.Succeeds) := by
  cases call with
  | send data answers =>
    obtain ⟨⟨ok, conn⟩, hsend, rfl⟩ := Option.map_eq_some_iff.mp hstep
    refine ⟨rfl, ?_⟩
    cases answers with
    | nil =>
      rw [TcpConnection.sendInParts, if_pos hconn] at hsend
      cases hsend
    | cons sent answers =>
      rw [TcpConnection.sendInParts, if_neg (not_not.mpr hconn)] at hsend
      split at hsend
      · next hheader =>
        rw [← (Prod.mk.inj (Option.some.inj hsend)).2]
        refine iff_of_false Bool.false_ne_true fun hsucceeds => hheader ?_
        exact Option.some.inj hsucceeds.1
      · next hheader =>
        rw [not_not] at hheader
        obtain ⟨⟨ok', written⟩, hloop, heq⟩ := Option.map_eq_some_iff.mp hsend
        rw [← (Prod.mk.inj heq).2]
        show ok' = true ↔ some sent = some 4 ∧ data.length ≤ taken answers
        rw [sendLoop_eq_true_iff hloop, hheader, eq_self_iff_true, true_and]
  | receive header body =>
    obtain rfl := Option.some.inj hstep
    refine ⟨rfl, ?_⟩
    show (d.conn.receiveInParts header body).2.connected = true ↔ _
    rw [TcpConnection.receiveInParts, if_neg (not_not.mpr hconn)]
    cases header with
    | none => simp [Call.Succeeds]
    | some h =>
      by_cases hlength : h.length = 4
      · by_cases hrefused : readBe32 h = 0 ∨ TcpConnection.maxMessage < readBe32 h
        · simp only [hlength, ne_eq, not_true_eq_false, if_false, hrefused, if_true, Call.Succeeds,
            Option.mem_def, Option.some.injEq, exists_eq_left', Bool.false_eq_true, false_iff]
          rintro ⟨-, hzero, hmax, -⟩
          omega
        · cases body with
          | none =>
            simp [hlength, hrefused, Call.Succeeds]
          | some b =>
            by_cases hbody : b.length = readBe32 h
            · simp [hlength, hrefused, hbody, hconn, Call.Succeeds]
              omega
            · simp [hlength, hrefused, hbody, Call.Succeeds]
      · simp [hlength, Call.Succeeds]
  | close => exact absurd rfl hne

/-- After the first close, calls change nothing. -/
theorem step_of_not_connected (hconn : d.conn.connected = false)
    (hstep : d.step call = some d') : d' = d := by
  have hnot : ¬ d.conn.connected = true := by
    rw [hconn]
    exact Bool.false_ne_true
  cases call with
  | send data answers =>
    obtain ⟨⟨ok, conn⟩, hsend, rfl⟩ := Option.map_eq_some_iff.mp hstep
    cases answers with
    | nil =>
      rw [TcpConnection.sendInParts, if_neg hnot] at hsend
      rw [← (Prod.mk.inj (Option.some.inj hsend)).2]
    | cons sent answers =>
      rw [TcpConnection.sendInParts, if_pos hnot] at hsend
      rw [← (Prod.mk.inj (Option.some.inj hsend)).2]
  | receive header body =>
    rw [← Option.some.inj hstep, TcpConnection.receiveInParts, if_pos hnot]
  | close =>
    rw [← Option.some.inj hstep]
    exact if_neg hnot

theorem step_close (hconn : d.conn.connected = true) (hstep : d.step .close = some d') :
    d'.conn.connected = false ∧ d'.closed = d.closed + 1 := by
  have hclose : d.close = ⟨{ d.conn with connected := false }, d.closed + 1⟩ := if_pos hconn
  rw [← Option.some.inj hstep, hclose]
  exact ⟨rfl, rfl⟩

/-- At the end the destructor closes what is usable. -/
theorem closedOnce_iff :
    d.ClosedOnce ↔ d.closed = if d.conn.connected = true then 0 else 1 := by
  rw [ClosedOnce, destroy, removeConnection, destroy]
  by_cases hconn : d.conn.connected = true
  · have hclose : d.close = ⟨{ d.conn with connected := false }, d.closed + 1⟩ := if_pos hconn
    have hagain : d.close.close = d.close := by
      rw [hclose]
      exact if_neg Bool.false_ne_true
    rw [hagain, hclose, if_pos hconn]
    simp
  · have hclose : d.close = d := if_neg hconn
    rw [hclose, hclose, if_neg hconn, and_self]

/-- What is usable has not been closed. -/
def Owned (d : Descriptor) : Prop := d.conn.connected = true → d.closed = 0

theorem Owned.step (h : d.Owned) (hstep : d.step call = some d') : d'.Owned := by
  intro hconn'
  by_cases hconn : d.conn.connected = true
  · by_cases hclose : call = .close
    · subst hclose
      rw [(step_close hconn hstep).1] at hconn'
      cases hconn'
    · rw [(connected_step hconn hclose hstep).1]
      exact h hconn
  · obtain rfl := step_of_not_connected (eq_false_of_ne_true hconn) hstep
    exact absurd hconn' hconn

/-- **One call** keeps the descriptor on the way to being closed once just if it leaves the
connection intact. -/
theorem Owned.intact_iff (h : d.Owned) (honce : d.ClosedOnce)
    (hstep : d.step call = some d') : d.Intact call ↔ d'.ClosedOnce := by
  by_cases hconn : d.conn.connected = true
  · by_cases hclose : call = .close
    · subst hclose
      obtain ⟨hconn', hclosed⟩ := step_close hconn hstep
      refine iff_of_true (fun _ => trivial) ?_
      rw [closedOnce_iff, hclosed, hconn', if_neg Bool.false_ne_true, h hconn]
    · obtain ⟨hclosed, hsucceeds⟩ := connected_step hconn hclose hstep
      rw [Intact, ← hsucceeds, closedOnce_iff, hclosed, h hconn]
      by_cases hconn' : d'.conn.connected = true <;> simp [hconn, hconn']
  · obtain rfl := step_of_not_connected (eq_false_of_ne_true hconn) hstep
    exact iff_of_true (fun hconn' => absurd hconn' hconn) honce

/-- A descriptor that was lost is not found again. -/
theorem Owned.closedOnce_of_step (h : d.Owned) (hstep : d.step call = some d')
    (honce : d'.ClosedOnce) : d.ClosedOnce := by
  by_cases hconn : d.conn.connected = true
  · rw [closedOnce_iff, if_pos hconn]
    exact h hconn
  · rw [← step_of_not_connected (eq_false_of_ne_true hconn) hstep]
    exact honce

end Steps

/-- **The descriptor is closed exactly once**, if it is destroyed or removed from the pool after
a run of calls, just if every call before the first close succeeds. -/
theorem descriptor_closedOnce_iff {calls : List Call} {d : Descriptor}
    (h : descriptor.exec descriptor.init calls = some d) :
    d.ClosedOnce ↔ (descriptor.restrict Intact).exec descriptor.init calls = some d :=
  System.exec_restrict_iff_of_absorbing (I := Owned) (fun _ _ _ hd hst => hd.step hst)
    (fun _ _ _ hd honce hst => hd.intact_iff honce hst)
    (fun _ _ _ hd hst honce => hd.closedOnce_of_step hst honce) (fun _ => rfl) (by decide) h

/-- A message is sent, and the connection closed twice. -/
theorem descriptor_closedOnce_sample : ∃ d,
    descriptor.exec descriptor.init [.send [1, 2] [4, 1, 1], .close, .close] = some d ∧
      d.ClosedOnce := by
  obtain ⟨d, hd, -⟩ := (descriptor.restrict Intact).exists_exec_of_any descriptor.init
    [.send [1, 2] [4, 1, 1], .close, .close] (fun _ => true) (by decide +kernel)
  exact ⟨d, System.exec_restrict hd, (descriptor_closedOnce_iff (System.exec_restrict hd)).mpr hd⟩

/-- The other end is gone before a message is read; nobody closes the descriptor. -/
theorem sampleEndOfStream_notClosed : ¬ ∀ (calls : List Call) (d : Descriptor),
    descriptor.exec descriptor.init calls = some d → d.ClosedOnce := by
  intro h
  have honce := h [.receive (some []) none] ⟨{ connected := false }, 0⟩ rfl
  exact absurd honce (by decide)

end Descriptor
