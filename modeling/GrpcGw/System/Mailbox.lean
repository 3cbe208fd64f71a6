import Mathlib.Logic.Basic

/-!
# Channels with Many Senders

An unbounded channel from many senders to one receiver, seen as a mailbox: what has been sent and
not yet received, how many senders there are, and whether there is a receiver. An implementation
is a channel whose operations are those of its mailbox.
-/

namespace GrpcGw.System

/-! ## Mailboxes -/

/-- A mailbox. -/
structure Mailbox (α : Type*) where
  queue : List α
  senders : Nat
  receiving : Bool
  deriving DecidableEq, Repr

/-- What a receiver finds. -/
inductive Received (α : Type*) where
  | item (a : α)
  /-- There is nothing, and no sender is left. -/
  | closed
  /-- There is nothing yet. -/
  | pending
  deriving DecidableEq, Repr

namespace Mailbox

variable {α : Type*}

/-- A mailbox with one sender. -/
def unbounded : Mailbox α where
  queue := []
  senders := 1
  receiving := true

def cloneSender (m : Mailbox α) : Mailbox α :=
  { m with senders := m.senders + 1 }

def dropSender (m : Mailbox α) : Mailbox α :=
  { m with senders := m.senders - 1 }

/-- What is in the queue is dropped with the receiver. -/
def dropReceiver (m : Mailbox α) : Mailbox α :=
  { m with queue := [], receiving := false }

/-- Sending fails without a receiver, and never waits. -/
def send (m : Mailbox α) (a : α) : Option (Mailbox α) :=
  if m.receiving then some { m with queue := m.queue ++ [a] } else none

/-- The queue is received before the channel is closed. -/
def recv (m : Mailbox α) : Received α × Mailbox α :=
  match m.queue with
  | a :: rest => (.item a, { m with queue := rest })
  | [] => (if m.senders = 0 then .closed else .pending, m)

variable {m : Mailbox α} {a : α}

theorem send_eq_some_iff {m' : Mailbox α} :
    m.send a = some m' ↔ m.receiving = true ∧ m' = { m with queue := m.queue ++ [a] } := by
  unfold send
  split
  · next h => simp [h, eq_comm]
  · next h => simp [h]

theorem send_eq_none_iff : m.send a = none ↔ m.receiving = false := by
  unfold send
  split
  · next h => simp [h]
  · next h => simpa using h

theorem recv_eq_item_iff {m' : Mailbox α} :
    m.recv = (.item a, m') ↔ m.queue = a :: m'.queue ∧ m' = { m with queue := m'.queue } := by
  unfold recv
  split
  · next b rest hqueue =>
    constructor
    · intro h
      cases h
      exact ⟨hqueue, rfl⟩
    · rintro ⟨hcons, hm'⟩
      rw [hqueue, List.cons.injEq] at hcons
      rw [hcons.1, hm', hcons.2]
  · next hqueue =>
    rw [hqueue]
    split
    · simp
    · simp

theorem recv_eq_closed_iff {m' : Mailbox α} :
    m.recv = (.closed, m') ↔ m.queue = [] ∧ m.senders = 0 ∧ m' = m := by
  unfold recv
  split
  · next b rest hqueue => simp [hqueue]
  · next hqueue =>
    split
    · next h => simp [hqueue, h, eq_comm]
    · next h => simp [h]

end Mailbox

/-! ## Implementations -/

/-- A channel that works like its mailbox. -/
structure Mpsc (α : Type) where
  Chan : Type
  unbounded : Chan
  cloneSender : Chan → Chan
  dropSender : Chan → Chan
  dropReceiver : Chan → Chan
  send : Chan → α → Option Chan
  recv : Chan → Received α × Chan
  mailbox : Chan → Mailbox α
  mailbox_unbounded : mailbox unbounded = .unbounded
  mailbox_cloneSender : ∀ c, mailbox (cloneSender c) = (mailbox c).cloneSender
  mailbox_dropSender : ∀ c, mailbox (dropSender c) = (mailbox c).dropSender
  mailbox_dropReceiver : ∀ c, mailbox (dropReceiver c) = (mailbox c).dropReceiver
  mailbox_send : ∀ c a, (send c a).map mailbox = (mailbox c).send a
  mailbox_recv : ∀ c, ((recv c).1, mailbox (recv c).2) = (mailbox c).recv

/-- A mailbox is a channel. -/
def Mpsc.ofMailbox (α : Type) : Mpsc α where
  Chan := Mailbox α
  unbounded := .unbounded
  cloneSender := Mailbox.cloneSender
  dropSender := Mailbox.dropSender
  dropReceiver := Mailbox.dropReceiver
  send := Mailbox.send
  recv := Mailbox.recv
  mailbox := id
  mailbox_unbounded := rfl
  mailbox_cloneSender _ := rfl
  mailbox_dropSender _ := rfl
  mailbox_dropReceiver _ := rfl
  mailbox_send _ _ := congrFun Option.map_id _
  mailbox_recv _ := rfl

section Mpsc

variable {α : Type} {M : Mpsc α} {c c' : M.Chan} {a : α}

theorem Mpsc.of_send (h : M.send c a = some c') :
    (M.mailbox c).receiving = true ∧
      M.mailbox c' = { M.mailbox c with queue := (M.mailbox c).queue ++ [a] } := by
  apply Mailbox.send_eq_some_iff.mp
  rw [← M.mailbox_send, h, Option.map_some]

theorem Mpsc.of_send_none (h : M.send c a = none) : (M.mailbox c).receiving = false := by
  apply Mailbox.send_eq_none_iff.mp
  rw [← M.mailbox_send, h, Option.map_none]

theorem Mpsc.of_recv_item (h : M.recv c = (.item a, c')) :
    (M.mailbox c).queue = a :: (M.mailbox c').queue ∧
      M.mailbox c' = { M.mailbox c with queue := (M.mailbox c').queue } := by
  apply Mailbox.recv_eq_item_iff.mp
  rw [← M.mailbox_recv, h]

theorem Mpsc.of_recv_closed (h : M.recv c = (.closed, c')) :
    (M.mailbox c).queue = [] ∧ (M.mailbox c).senders = 0 ∧ M.mailbox c' = M.mailbox c := by
  apply Mailbox.recv_eq_closed_iff.mp
  rw [← M.mailbox_recv, h]

/-- The channel is closed once it is empty and has no sender left. -/
theorem Mpsc.recv_closed_iff :
    (M.recv c).1 = .closed ↔ (M.mailbox c).queue = [] ∧ (M.mailbox c).senders = 0 := by
  constructor
  · intro h
    obtain ⟨hqueue, hsenders, -⟩ := Mpsc.of_recv_closed (Prod.ext h rfl)
    exact ⟨hqueue, hsenders⟩
  · rintro ⟨hqueue, hsenders⟩
    have hrecv := Mailbox.recv_eq_closed_iff.mpr ⟨hqueue, hsenders, rfl⟩
    rw [← M.mailbox_recv] at hrecv
    exact congrArg Prod.fst hrecv

end Mpsc

end GrpcGw.System
