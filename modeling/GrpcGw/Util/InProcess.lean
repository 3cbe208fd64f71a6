import Mathlib.Data.List.Basic
import Mathlib.Data.List.Infix
import Mathlib.Data.List.Range
import GrpcGw.System.Mailbox
import GrpcGw.System.Run

/-!
# The In-Process Transport

`grpc-gw-util`: a connector dials by making a pipe and sending its server half to the incoming
connections, over a channel that all connectors and all dials share. Connectors are cloned and
dropped, dials run or are given up, and connections are accepted, in any order.

- `accepted_connections`: the server accepts the connections that were made, in the order in which
  they were made, and each is the other half of one dial.
- `dial_outcome`: how a dial ends depends on whether the server was still there when it ran.
- `accept_closed_iff`: when the stream of connections ends, and that it stays so.
-/

namespace GrpcGw.Util

open GrpcGw.System

/-! ## The transport -/

/-- The server half of a pipe, by the number of the pipe. -/
structure ServerIo where
  pipe : Nat
  deriving DecidableEq, Repr

/-- A call of a connector. Its future holds a sender until it is done. -/
inductive Dial where
  | pending
  /-- `Ok` with the client half of a pipe. -/
  | connected (pipe : Nat)
  | refused (message : String)
  /-- The future was dropped before it ran. -/
  | abandoned
  deriving DecidableEq, Repr

/-- The two ends of the transport, and what has become of the calls. -/
structure Transport (M : Mpsc ServerIo) where
  chan : M.Chan
  /-- How many pipes have been made. -/
  pipes : Nat
  connectors : Nat
  dials : List Dial
  /-- Whether the `Incoming` end is still there. -/
  incoming : Bool
  /-- The pipes whose server half has been accepted. -/
  accepted : List Nat

/-- What happens to a transport. -/
inductive Event where
  /-- A connector is cloned. -/
  | clone
  | dropConnector
  /-- `Connector::call`; the connector is always ready. -/
  | call
  /-- The future of a call is polled: it runs to its end at once. -/
  | run (k : Nat)
  | abandon (k : Nat)
  /-- `Incoming::accept`, or `poll_next`, has a result. -/
  | accept
  | dropIncoming
  deriving DecidableEq, Repr

/-- Whether an event runs a dial. -/
def Event.isRun : Event → Bool
  | .run _ => true
  | _ => false

variable {M : Mpsc ServerIo}

/-- `in_process_transport`. -/
def inProcessTransport (M : Mpsc ServerIo) : Transport M where
  chan := M.unbounded
  pipes := 0
  connectors := 1
  dials := []
  incoming := true
  accepted := []

namespace Transport

/-- The message of a dial that finds no server. -/
def stoppedAccepting : String := "in-process server stopped accepting"

/-- The future of `call`: a new pipe, whose server half is sent. Its sender is dropped at the
    end. -/
def dial (w : Transport M) (k : Nat) : Transport M :=
  match M.send w.chan ⟨w.pipes⟩ with
  | none =>
    { w with
      chan := M.dropSender w.chan
      pipes := w.pipes + 1
      dials := w.dials.set k (.refused stoppedAccepting) }
  | some chan =>
    { w with
      chan := M.dropSender chan
      pipes := w.pipes + 1
      dials := w.dials.set k (.connected w.pipes) }

/-- `accept`: the next connection, or none when the stream has ended; it waits as long as there
    is nothing. -/
def accept (w : Transport M) : Option (Transport M) :=
  match M.recv w.chan with
  | (.item io, chan) => some { w with chan := chan, accepted := w.accepted ++ [io.pipe] }
  | (.closed, chan) => some { w with chan := chan }
  | (.pending, _) => none

/-- One event; none if it cannot happen. -/
def step (w : Transport M) : Event → Option (Transport M)
  | .clone =>
    if w.connectors = 0 then none
    else some { w with chan := M.cloneSender w.chan, connectors := w.connectors + 1 }
  | .dropConnector =>
    if w.connectors = 0 then none
    else some { w with chan := M.dropSender w.chan, connectors := w.connectors - 1 }
  | .call =>
    if w.connectors = 0 then none
    else some { w with chan := M.cloneSender w.chan, dials := w.dials ++ [.pending] }
  | .run k => if w.dials[k]? = some .pending then some (w.dial k) else none
  | .abandon k =>
    if w.dials[k]? = some .pending then
      some { w with chan := M.dropSender w.chan, dials := w.dials.set k .abandoned }
    else none
  | .accept => if w.incoming then w.accept else none
  | .dropIncoming =>
    if w.incoming then some { w with chan := M.dropReceiver w.chan, incoming := false } else none

/-- The pipes whose server half has not been accepted yet. -/
def waiting (w : Transport M) : List Nat :=
  (M.mailbox w.chan).queue.map ServerIo.pipe

/-- The pipes of the dials that are connected, in the order in which they were made. -/
def connections (w : Transport M) : List Nat :=
  (List.range w.pipes).filter fun p => .connected p ∈ w.dials

/-- What an event does, and when it can happen. -/
inductive Steps (w : Transport M) : Event → Transport M → Prop where
  | clone (h : w.connectors ≠ 0) :
      Steps w .clone { w with chan := M.cloneSender w.chan, connectors := w.connectors + 1 }
  | dropConnector (h : w.connectors ≠ 0) :
      Steps w .dropConnector { w with chan := M.dropSender w.chan, connectors := w.connectors - 1 }
  | call (h : w.connectors ≠ 0) :
      Steps w .call { w with chan := M.cloneSender w.chan, dials := w.dials ++ [.pending] }
  | refused {k : Nat} (hk : w.dials[k]? = some .pending) (h : M.send w.chan ⟨w.pipes⟩ = none) :
      Steps w (.run k)
        { w with
          chan := M.dropSender w.chan
          pipes := w.pipes + 1
          dials := w.dials.set k (.refused stoppedAccepting) }
  | connected {k : Nat} {chan : M.Chan} (hk : w.dials[k]? = some .pending)
      (h : M.send w.chan ⟨w.pipes⟩ = some chan) :
      Steps w (.run k)
        { w with
          chan := M.dropSender chan
          pipes := w.pipes + 1
          dials := w.dials.set k (.connected w.pipes) }
  | abandon {k : Nat} (hk : w.dials[k]? = some .pending) :
      Steps w (.abandon k)
        { w with chan := M.dropSender w.chan, dials := w.dials.set k .abandoned }
  | accepted {io : ServerIo} {chan : M.Chan} (h : w.incoming = true)
      (hrecv : M.recv w.chan = (.item io, chan)) :
      Steps w .accept { w with chan := chan, accepted := w.accepted ++ [io.pipe] }
  | ended {chan : M.Chan} (h : w.incoming = true) (hrecv : M.recv w.chan = (.closed, chan)) :
      Steps w .accept { w with chan := chan }
  | dropIncoming (h : w.incoming = true) :
      Steps w .dropIncoming { w with chan := M.dropReceiver w.chan, incoming := false }

theorem steps_of_step {w w' : Transport M} {e : Event} (h : w.step e = some w') :
    w.Steps e w' := by
  cases e with
  | clone =>
    simp only [step, Option.ite_none_left_eq_some, Option.some.injEq] at h
    obtain ⟨hne, rfl⟩ := h
    exact .clone hne
  | dropConnector =>
    simp only [step, Option.ite_none_left_eq_some, Option.some.injEq] at h
    obtain ⟨hne, rfl⟩ := h
    exact .dropConnector hne
  | call =>
    simp only [step, Option.ite_none_left_eq_some, Option.some.injEq] at h
    obtain ⟨hne, rfl⟩ := h
    exact .call hne
  | run k =>
    simp only [step, Option.ite_none_right_eq_some, Option.some.injEq] at h
    obtain ⟨hk, rfl⟩ := h
    unfold dial
    cases hsend : M.send w.chan ⟨w.pipes⟩ with
    | none => exact .refused hk hsend
    | some chan => exact .connected hk hsend
  | abandon k =>
    simp only [step, Option.ite_none_right_eq_some, Option.some.injEq] at h
    obtain ⟨hk, rfl⟩ := h
    exact .abandon hk
  | accept =>
    simp only [step, Option.ite_none_right_eq_some] at h
    obtain ⟨hincoming, haccept⟩ := h
    unfold accept at haccept
    rcases hrecv : M.recv w.chan with ⟨received, chan⟩
    rw [hrecv] at haccept
    cases received with
    | item io =>
      cases haccept
      exact .accepted hincoming hrecv
    | closed =>
      cases haccept
      exact .ended hincoming hrecv
    | pending => cases haccept
  | dropIncoming =>
    simp only [step, Option.ite_none_right_eq_some, Option.some.injEq] at h
    obtain ⟨hincoming, rfl⟩ := h
    exact .dropIncoming hincoming

end Transport

/-! ## Dials -/

section Dials

variable {l : List Dial} {k : Nat} {d x : Dial}

/-- Once a pending dial is done, there is one more of its kind. -/
theorem count_set_of_ne (h : l[k]? = some .pending) (hx : x ≠ .pending) :
    (l.set k d).count x = l.count x + if d = x then 1 else 0 := by
  obtain ⟨hk, hpending⟩ := List.getElem?_eq_some_iff.mp h
  rw [List.count_set hk, hpending]
  simp [Ne.symm hx]

/-- Once a pending dial is done, there is one pending dial less. -/
theorem count_set_pending (h : l[k]? = some .pending) (hd : d ≠ .pending) :
    (l.set k d).count .pending + 1 = l.count .pending := by
  obtain ⟨hk, hpending⟩ := List.getElem?_eq_some_iff.mp h
  have hpos : 0 < l.count .pending := List.count_pos_iff.mpr (hpending ▸ List.getElem_mem hk)
  rw [List.count_set hk, hpending]
  simp only [beq_self_eq_true, if_true, beq_iff_eq, hd, if_false]
  omega

theorem mem_set_of_ne (h : l[k]? = some .pending) (hx : x ≠ .pending) :
    x ∈ l.set k d ↔ d = x ∨ x ∈ l := by
  rw [← List.count_pos_iff, count_set_of_ne h hx, ← List.count_pos_iff]
  by_cases hdx : d = x
  · simp [hdx]
  · simp [hdx]

end Dials

/-! ## What every step keeps -/

namespace Transport

variable {w w' : Transport M} {e : Event}

/-- Connections depend on the pipes and on the dials that are connected. -/
theorem connections_congr (hpipes : w'.pipes = w.pipes)
    (hdials : ∀ p, .connected p ∈ w'.dials ↔ .connected p ∈ w.dials) :
    w'.connections = w.connections := by
  unfold connections
  rw [hpipes]
  simp only [hdials]

/-- What holds of every transport that has been used. -/
structure Sound (w : Transport M) : Prop where
  /-- Every connector and every dial that has not run holds a sender. -/
  senders : (M.mailbox w.chan).senders = w.connectors + w.dials.count .pending
  receiving : (M.mailbox w.chan).receiving = w.incoming
  fresh : ∀ p, .connected p ∈ w.dials → p < w.pipes
  once : ∀ p, w.dials.count (.connected p) ≤ 1
  order : w.incoming = true → w.accepted ++ w.waiting = w.connections
  isPrefix : w.accepted <+: w.connections

theorem sound_init : (inProcessTransport M).Sound where
  senders := by
    show (M.mailbox M.unbounded).senders = 1
    rw [M.mailbox_unbounded]
    rfl
  receiving := by
    show (M.mailbox M.unbounded).receiving = true
    rw [M.mailbox_unbounded]
    rfl
  fresh := by simp [inProcessTransport]
  once := by simp [inProcessTransport]
  order := by
    intro _
    show [] ++ (M.mailbox M.unbounded).queue.map ServerIo.pipe = []
    rw [M.mailbox_unbounded]
    rfl
  isPrefix := List.nil_prefix

/-- A new pipe is the last one. -/
theorem connections_connected {k : Nat} (hk : w.dials[k]? = some .pending)
    (hpipes : w'.pipes = w.pipes + 1) (hdials : w'.dials = w.dials.set k (.connected w.pipes)) :
    w'.connections = w.connections ++ [w.pipes] := by
  have hmem : ∀ p, .connected p ∈ w'.dials ↔ w.pipes = p ∨ .connected p ∈ w.dials := by
    intro p
    rw [hdials, mem_set_of_ne hk (by simp), Dial.connected.injEq]
  unfold connections
  rw [hpipes, List.range_succ, List.filter_append]
  congr 1
  · apply List.filter_congr
    intro p hp
    -- an earlier pipe is not the new one
    have hne : w.pipes ≠ p := Nat.ne_of_gt (List.mem_range.mp hp)
    simp [hmem, hne]
  · simp [hmem]

/-- A pipe that is not sent is no connection. -/
theorem connections_refused {k : Nat} {message : String} (h : w.Sound)
    (hk : w.dials[k]? = some .pending) (hpipes : w'.pipes = w.pipes + 1)
    (hdials : w'.dials = w.dials.set k (.refused message)) : w'.connections = w.connections := by
  have hmem : ∀ p, .connected p ∈ w'.dials ↔ .connected p ∈ w.dials := by
    intro p
    rw [hdials, mem_set_of_ne hk (by simp)]
    simp
  have hnew : .connected w.pipes ∉ w.dials := fun hmem => Nat.lt_irrefl _ (h.fresh _ hmem)
  unfold connections
  rw [hpipes, List.range_succ, List.filter_append]
  simp [hmem, hnew]

/-- A dial that is done gives its sender back. -/
theorem senders_done {k : Nat} {d : Dial} {c : M.Chan} (hk : w.dials[k]? = some .pending)
    (hd : d ≠ .pending) (hc : (M.mailbox c).senders = w.connectors + w.dials.count .pending) :
    (M.mailbox (M.dropSender c)).senders = w.connectors + (w.dials.set k d).count .pending := by
  have hcount := count_set_pending hk hd
  rw [M.mailbox_dropSender]
  show (M.mailbox c).senders - 1 = _
  omega

/-- A step that makes no pipe, connects no dial and accepts nothing keeps the order. -/
theorem Sound.of_same (h : w.Sound)
    (hsenders : (M.mailbox w'.chan).senders = w'.connectors + w'.dials.count .pending)
    (hreceiving : (M.mailbox w'.chan).receiving = w'.incoming)
    (hdials : ∀ p, w'.dials.count (.connected p) = w.dials.count (.connected p))
    (hwaiting : w'.incoming = true → w.incoming = true ∧ w'.waiting = w.waiting)
    (hrest : w'.pipes = w.pipes ∧ w'.accepted = w.accepted) : w'.Sound := by
  obtain ⟨hpipes, haccepted⟩ := hrest
  have hmem : ∀ p, .connected p ∈ w'.dials ↔ .connected p ∈ w.dials := by
    intro p
    rw [← List.count_pos_iff, hdials, List.count_pos_iff]
  have hconnections := connections_congr hpipes hmem
  constructor
  · exact hsenders
  · exact hreceiving
  · intro p hp
    rw [hpipes]
    exact h.fresh p ((hmem p).mp hp)
  · intro p
    rw [hdials]
    exact h.once p
  · intro hincoming
    obtain ⟨hold, hsame⟩ := hwaiting hincoming
    rw [haccepted, hsame, hconnections]
    exact h.order hold
  · rw [haccepted, hconnections]
    exact h.isPrefix

/-- A dial that finds no server makes a pipe that is no connection. -/
theorem Sound.refused {k : Nat} (h : w.Sound) (hk : w.dials[k]? = some .pending)
    (hsend : M.send w.chan ⟨w.pipes⟩ = none) :
    Sound
      { w with
        chan := M.dropSender w.chan
        pipes := w.pipes + 1
        dials := w.dials.set k (.refused stoppedAccepting) } := by
  have hgone := Mpsc.of_send_none hsend
  constructor
  · exact senders_done hk (by simp) h.senders
  · rw [M.mailbox_dropSender]
    exact h.receiving
  · intro p hp
    rw [mem_set_of_ne hk (by simp)] at hp
    exact Nat.lt_succ_of_lt (h.fresh p (hp.resolve_left (by simp)))
  · intro p
    show (w.dials.set k _).count _ ≤ 1
    rw [count_set_of_ne hk (by simp)]
    exact h.once p
  · -- the receiver is gone, so there is nothing to keep in order
    intro hincoming
    rw [h.receiving] at hgone
    exact absurd hincoming (by simp [hgone])
  · rw [connections_refused h hk rfl rfl]
    exact h.isPrefix

/-- A dial that is connected makes the last connection. -/
theorem Sound.connected {k : Nat} {chan : M.Chan} (h : w.Sound)
    (hk : w.dials[k]? = some .pending) (hsend : M.send w.chan ⟨w.pipes⟩ = some chan) :
    Sound
      { w with
        chan := M.dropSender chan
        pipes := w.pipes + 1
        dials := w.dials.set k (.connected w.pipes) } := by
  obtain ⟨-, hmailbox⟩ := Mpsc.of_send hsend
  have hnew : .connected w.pipes ∉ w.dials := fun hmem => Nat.lt_irrefl _ (h.fresh _ hmem)
  constructor
  · apply senders_done hk (by simp)
    rw [hmailbox]
    exact h.senders
  · rw [M.mailbox_dropSender, hmailbox]
    exact h.receiving
  · intro p hp
    rw [mem_set_of_ne hk (by simp), Dial.connected.injEq] at hp
    rcases hp with rfl | hp
    · exact Nat.lt_succ_self _
    · exact Nat.lt_succ_of_lt (h.fresh p hp)
  · intro p
    show (w.dials.set k _).count _ ≤ 1
    rw [count_set_of_ne hk (by simp)]
    split
    · next hp => rw [← hp, List.count_eq_zero.mpr hnew]
    · exact h.once p
  · -- the new pipe is the last one to wait, and the last one that was made
    intro hincoming
    rw [connections_connected hk rfl rfl, ← h.order hincoming, List.append_assoc]
    show _ ++ (M.mailbox (M.dropSender chan)).queue.map ServerIo.pipe = _
    rw [M.mailbox_dropSender, hmailbox]
    simp [waiting, Mailbox.dropSender]
  · rw [connections_connected hk rfl rfl]
    exact h.isPrefix.trans (List.prefix_append _ _)

/-- Accepting takes the first connection that waits. -/
theorem Sound.accepted {io : ServerIo} {chan : M.Chan} (h : w.Sound) (hincoming : w.incoming = true)
    (hrecv : M.recv w.chan = (.item io, chan)) :
    Sound { w with chan := chan, accepted := w.accepted ++ [io.pipe] } := by
  obtain ⟨hqueue, hmailbox⟩ := Mpsc.of_recv_item hrecv
  have horder : w.accepted ++ [io.pipe] ++ (M.mailbox chan).queue.map ServerIo.pipe =
      w.connections := by
    rw [← h.order hincoming, waiting, hqueue, List.map_cons, List.append_assoc]
    rfl
  constructor
  · rw [hmailbox]
    exact h.senders
  · rw [hmailbox]
    exact h.receiving
  · exact h.fresh
  · exact h.once
  · exact fun _ => horder
  · exact ⟨_, horder⟩

/-- **What every step keeps.** -/
theorem Sound.step (h : w.Sound) (hstep : w.step e = some w') : w'.Sound := by
  have hsenders := h.senders
  have hclone := M.mailbox_cloneSender w.chan
  have hdrop := M.mailbox_dropSender w.chan
  cases steps_of_step hstep with
  | refused hk hsend => exact h.refused hk hsend
  | connected hk hsend => exact h.connected hk hsend
  | accepted hincoming hrecv => exact h.accepted hincoming hrecv
  | clone hne =>
    apply h.of_same
    · rw [hclone]
      show (M.mailbox w.chan).senders + 1 = w.connectors + 1 + w.dials.count .pending
      omega
    · rw [hclone]
      exact h.receiving
    · exact fun _ => rfl
    · exact fun hincoming => ⟨hincoming, by rw [waiting, hclone]; rfl⟩
    · exact ⟨rfl, rfl⟩
  | dropConnector hne =>
    apply h.of_same
    · rw [hdrop]
      show (M.mailbox w.chan).senders - 1 = w.connectors - 1 + w.dials.count .pending
      omega
    · rw [hdrop]
      exact h.receiving
    · exact fun _ => rfl
    · exact fun hincoming => ⟨hincoming, by rw [waiting, hdrop]; rfl⟩
    · exact ⟨rfl, rfl⟩
  | call hne =>
    apply h.of_same
    · rw [hclone]
      show (M.mailbox w.chan).senders + 1 =
        w.connectors + (w.dials ++ [Dial.pending]).count Dial.pending
      rw [List.count_append, List.count_singleton_self]
      omega
    · rw [hclone]
      exact h.receiving
    · intro p
      show (w.dials ++ [Dial.pending]).count _ = _
      have hnew : [Dial.pending].count (.connected p) = 0 := List.count_eq_zero.mpr (by simp)
      rw [List.count_append, hnew, Nat.add_zero]
    · exact fun hincoming => ⟨hincoming, by rw [waiting, hclone]; rfl⟩
    · exact ⟨rfl, rfl⟩
  | abandon hk =>
    apply h.of_same
    · exact senders_done hk (by simp) hsenders
    · rw [hdrop]
      exact h.receiving
    · intro p
      show (w.dials.set _ _).count _ = _
      rw [count_set_of_ne hk (by simp), if_neg (by simp), Nat.add_zero]
    · exact fun hincoming => ⟨hincoming, by rw [waiting, hdrop]; rfl⟩
    · exact ⟨rfl, rfl⟩
  | ended hincoming hrecv =>
    obtain ⟨-, -, hmailbox⟩ := Mpsc.of_recv_closed hrecv
    apply h.of_same
    · rw [hmailbox]
      exact hsenders
    · rw [hmailbox]
      exact h.receiving
    · exact fun _ => rfl
    · exact fun _ => ⟨hincoming, by rw [waiting, hmailbox]; rfl⟩
    · exact ⟨rfl, rfl⟩
  | dropIncoming hincoming =>
    have hmailbox := M.mailbox_dropReceiver w.chan
    apply h.of_same
    · rw [hmailbox]
      exact hsenders
    · rw [hmailbox]
      rfl
    · exact fun _ => rfl
    · -- nobody accepts any more
      intro hgone
      cases hgone
    · exact ⟨rfl, rfl⟩

theorem sound_of_run {t : List Event}
    (hrun : run Transport.step (inProcessTransport M) t = some w) : w.Sound :=
  run_invariant sound_init (fun _ _ _ h hstep => h.step hstep) hrun

/-- **The server accepts the connections that were made**: those it has accepted and those that
    wait are the pipes of the dials that are connected, in the order in which they were made, and
    each pipe is the one of a single dial. What is accepted before the server goes away is a
    beginning of them. -/
theorem accepted_connections {t : List Event}
    (hrun : run Transport.step (inProcessTransport M) t = some w) :
    (w.incoming = true → w.accepted ++ w.waiting = w.connections) ∧
      w.accepted <+: w.connections ∧
      ∀ p, p ∈ w.connections → w.dials.count (.connected p) = 1 := by
  have h := sound_of_run hrun
  refine ⟨h.order, h.isPrefix, ?_⟩
  intro p hp
  have hmem : .connected p ∈ w.dials := by simpa using (List.mem_filter.mp hp).2
  exact Nat.le_antisymm (h.once p) (List.count_pos_iff.mpr hmem)

/-- Two calls; the later one runs first. -/
def twoCalls : List Event :=
  [.call, .call, .run 1, .accept, .run 0]

/-- The first pipe is accepted, the second one waits. -/
theorem accepted_connections_twoCalls : ∃ w : Transport (.ofMailbox ServerIo),
    run step (inProcessTransport _) twoCalls = some w ∧ w.accepted ++ w.waiting = w.connections ∧
      w.connections = [0, 1] ∧ w.dials = [.connected 1, .connected 0] := by
  obtain ⟨w, hw⟩ : ∃ w : Transport (.ofMailbox ServerIo),
      run step (inProcessTransport _) twoCalls = some w := ⟨_, rfl⟩
  have horder := (accepted_connections hw).1
  refine ⟨w, hw, ?_, ?_, ?_⟩
  · apply horder
    cases hw
    rfl
  · cases hw
    decide
  · cases hw
    rfl

/-! ## How a dial ends -/

/-- A dial that is done stays as it is. -/
theorem dials_of_step {k : Nat} {d : Dial} (hstep : w.step e = some w') (hd : d ≠ .pending)
    (h : w.dials[k]? = some d) : w'.dials[k]? = some d := by
  have hset : ∀ {j : Nat} {d' : Dial}, w.dials[j]? = some .pending →
      (w.dials.set j d')[k]? = some d := by
    intro j d' hj
    have hne : j ≠ k := by
      rintro rfl
      rw [h] at hj
      exact hd (Option.some.inj hj)
    rw [List.getElem?_set_ne hne, h]
  cases steps_of_step hstep with
  | refused hj _ | connected hj _ | abandon hj => exact hset hj
  | call hne =>
    show (w.dials ++ [Dial.pending])[k]? = _
    rw [List.getElem?_append_left (List.getElem?_eq_some_iff.mp h).1, h]
  | _ => exact h

/-- How the dial that runs after some events ends. -/
def outcome (before : List Event) : Dial :=
  if .dropIncoming ∈ before then .refused stoppedAccepting
  else .connected (before.countP Event.isRun)

/-- What the events so far have made of the transport. -/
structure Recorded (t : List Event) (w : Transport M) : Prop where
  sound : w.Sound
  pipes : w.pipes = t.countP Event.isRun
  incoming : w.incoming = true ↔ .dropIncoming ∉ t
  outcome : ∀ before k after, t = before ++ .run k :: after →
    w.dials[k]? = some (outcome before)

theorem recorded_init : Recorded [] (inProcessTransport M) where
  sound := sound_init
  pipes := rfl
  incoming := by simp [inProcessTransport]
  outcome := by simp

/-- A dial that runs now is the last one that has run. -/
theorem Recorded.run {t : List Event} {k : Nat} (h : Recorded t w)
    (hstep : w.step (.run k) = some w') : w'.dials[k]? = some (Transport.outcome t) := by
  have hreceiving := h.sound.receiving
  cases steps_of_step hstep with
  | refused hk hsend =>
    have hlt := (List.getElem?_eq_some_iff.mp hk).1
    rw [Mpsc.of_send_none hsend] at hreceiving
    have hdropped : .dropIncoming ∈ t := by
      by_contra hnot
      rw [h.incoming.mpr hnot] at hreceiving
      cases hreceiving
    rw [Transport.outcome, if_pos hdropped]
    exact List.getElem?_set_self hlt
  | connected hk hsend =>
    have hlt := (List.getElem?_eq_some_iff.mp hk).1
    rw [(Mpsc.of_send hsend).1] at hreceiving
    rw [Transport.outcome, if_neg (h.incoming.mp hreceiving.symm), ← h.pipes]
    exact List.getElem?_set_self hlt

theorem outcome_ne_pending (t : List Event) : Transport.outcome t ≠ .pending := by
  unfold Transport.outcome
  split <;> simp

theorem Recorded.step {t : List Event} (h : Recorded t w) (hstep : w.step e = some w') :
    Recorded (t ++ [e]) w' where
  sound := h.sound.step hstep
  pipes := by
    rw [List.countP_append]
    cases steps_of_step hstep with
    | refused _ _ | connected _ _ =>
      show w.pipes + 1 = _
      rw [h.pipes]
      rfl
    | _ =>
      show w.pipes = _
      rw [h.pipes]
      rfl
  incoming := by
    cases steps_of_step hstep with
    | dropIncoming _ => simp
    | _ => simpa using h.incoming
  outcome := by
    intro before k after heq
    -- the dial has just run, or it had run before
    rcases List.eq_nil_or_concat after with rfl | ⟨after', e', rfl⟩
    · obtain ⟨rfl, hlast⟩ := List.append_inj' heq rfl
      cases hlast
      exact h.run hstep
    · rw [List.concat_eq_append, ← List.cons_append, ← List.append_assoc] at heq
      obtain ⟨hbefore, -⟩ := List.append_inj' heq rfl
      exact dials_of_step hstep (outcome_ne_pending before) (h.outcome before k after' hbefore)

/-- **How a dial ends**: a dial that runs before the server has gone away makes the pipe whose
    number is the number of dials before it; one that runs later fails. No later event changes
    that. -/
theorem dial_outcome {before after : List Event} {k : Nat}
    (hrun : System.run step (inProcessTransport M) (before ++ .run k :: after) = some w) :
    w.dials[k]? = some (outcome before) :=
  (run_history recorded_init (fun _ _ _ _ h hstep => h.step hstep) hrun : Recorded _ w).outcome
    before k after rfl

/-- The first call runs as the second one, before the server goes away. -/
theorem dial_outcome_twoCalls : ∃ w : Transport (.ofMailbox ServerIo),
    run step (inProcessTransport _)
        ([.call, .call, .run 1, .accept] ++ .run 0 :: [.dropIncoming]) = some w ∧
      w.dials[0]? = some (.connected 1) := by
  obtain ⟨w, hw⟩ : ∃ w : Transport (.ofMailbox ServerIo),
      run step (inProcessTransport _)
        ([.call, .call, .run 1, .accept] ++ .run 0 :: [.dropIncoming]) = some w := ⟨_, rfl⟩
  exact ⟨w, hw, dial_outcome hw⟩

/-! ## The end of the stream -/

/-- A transport whose stream of connections has ended. -/
structure Ended (w w' : Transport M) : Prop where
  connectors : w'.connectors = 0
  pending : .pending ∉ w'.dials
  dials : w'.dials = w.dials
  accepted : w'.accepted = w.accepted
  closed : (M.recv w'.chan).1 = .closed

theorem Ended.step {w₀ : Transport M} (h : Ended w₀ w) (hstep : w.step e = some w') :
    Ended w₀ w' := by
  have hnone : ∀ {k : Nat}, w.dials[k]? ≠ some .pending :=
    fun hk => h.pending (List.mem_of_getElem? hk)
  obtain ⟨hqueue, hsenders⟩ := Mpsc.recv_closed_iff.mp h.closed
  cases steps_of_step hstep with
  | clone hne | dropConnector hne | call hne => exact absurd h.connectors hne
  | refused hk _ | connected hk _ | abandon hk => exact absurd hk hnone
  | accepted _ hrecv =>
    have hclosed := h.closed
    rw [hrecv] at hclosed
    cases hclosed
  | ended _ hrecv =>
    obtain ⟨-, -, hmailbox⟩ := Mpsc.of_recv_closed hrecv
    refine ⟨h.connectors, h.pending, h.dials, h.accepted, Mpsc.recv_closed_iff.mpr ?_⟩
    rw [hmailbox]
    exact ⟨hqueue, hsenders⟩
  | dropIncoming _ =>
    refine ⟨h.connectors, h.pending, h.dials, h.accepted, Mpsc.recv_closed_iff.mpr ?_⟩
    rw [M.mailbox_dropReceiver]
    exact ⟨rfl, hsenders⟩

/-- **When the stream of connections ends**: once every connector is gone, no dial is left to run
    and every connection has been accepted; and then nothing follows. -/
theorem accept_closed_iff {t : List Event}
    (hrun : System.run step (inProcessTransport M) t = some w) (hincoming : w.incoming = true) :
    ((M.recv w.chan).1 = .closed ↔
        w.connectors = 0 ∧ .pending ∉ w.dials ∧ w.accepted = w.connections) ∧
      ((M.recv w.chan).1 = .closed → ∀ t' w', System.run step w t' = some w' →
        w'.dials = w.dials ∧ w'.accepted = w.accepted ∧ (M.recv w'.chan).1 = .closed) := by
  have h := sound_of_run hrun
  have hiff : (M.recv w.chan).1 = .closed ↔
      w.connectors = 0 ∧ .pending ∉ w.dials ∧ w.accepted = w.connections := by
    have hqueue : (M.mailbox w.chan).queue = [] ↔ w.accepted = w.connections := by
      rw [← h.order hincoming, waiting]
      simp
    have hsenders : (M.mailbox w.chan).senders = 0 ↔ w.connectors = 0 ∧ .pending ∉ w.dials := by
      rw [h.senders, Nat.add_eq_zero_iff, List.count_eq_zero]
    rw [Mpsc.recv_closed_iff, hqueue, hsenders]
    constructor
    · rintro ⟨haccepted, hconnectors, hpending⟩
      exact ⟨hconnectors, hpending, haccepted⟩
    · rintro ⟨hconnectors, hpending, haccepted⟩
      exact ⟨haccepted, hconnectors, hpending⟩
  refine ⟨hiff, fun hclosed t' w' hrun' => ?_⟩
  obtain ⟨hconnectors, hpending, -⟩ := hiff.mp hclosed
  have hended : Ended w w' :=
    run_invariant (P := Ended w) ⟨hconnectors, hpending, rfl, rfl, hclosed⟩
      (fun _ _ _ h hstep => h.step hstep) hrun'
  exact ⟨hended.dials, hended.accepted, hended.closed⟩

/-- The second call is given up, and the connector is dropped. -/
theorem accept_closed_twoCalls : ∃ w : Transport (.ofMailbox ServerIo),
    run step (inProcessTransport _)
        [.call, .call, .run 1, .accept, .abandon 0, .dropConnector] = some w ∧
      ((Mpsc.ofMailbox ServerIo).recv w.chan).1 = .closed := by
  refine ⟨_, rfl, ?_⟩
  rw [(accept_closed_iff (t := [.call, .call, .run 1, .accept, .abandon 0, .dropConnector])
    rfl rfl).1]
  decide

end Transport

end GrpcGw.Util
