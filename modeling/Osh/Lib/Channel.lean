import Mathlib.Data.List.Perm.Basic

/-!
# Datagram channels

A one-way channel over a network that may drop, delay and reorder what it carries, but
neither alters nor duplicates it. A message that was sent is in flight until the network
drops it or puts it into the buffer of the receiver, where it waits to be received. A
network that always delivers the message at the front of those in flight keeps the order.

## Main definitions

* `Channel`: the messages in flight and those in the receiver's buffer, oldest first.
* `send`, `deliver`, `drop`, `receive`: what the sender, the network and the receiver do.
* `contents`: all messages of the channel, in the order of reception.
-/
namespace Osh
universe u

/-- The messages in flight and those in the receiver's buffer, oldest first. -/
structure Channel (α : Type u) where
  inFlight : List α
  buffer : List α
deriving DecidableEq, Repr

namespace Channel
variable {α : Type u} {c d : Channel α} {a : α} {i : ℕ}

/-- A channel that carries nothing. -/
def empty : Channel α := ⟨[], []⟩

/-- All messages of the channel: those in the buffer come before those in flight. -/
def contents (c : Channel α) : List α := c.buffer ++ c.inFlight

/-- The sender's operation. -/
def send (c : Channel α) (a : α) : Channel α := { c with inFlight := c.inFlight ++ [a] }

/-- The network puts message `i` of those in flight into the receiver's buffer. -/
def deliver (c : Channel α) (i : ℕ) : Option (Channel α) :=
  c.inFlight[i]?.map fun a => { inFlight := c.inFlight.eraseIdx i, buffer := c.buffer ++ [a] }

/-- The network loses message `i` of those in flight. -/
def drop (c : Channel α) (i : ℕ) : Option (Channel α) :=
  c.inFlight[i]?.map fun _ => { c with inFlight := c.inFlight.eraseIdx i }

/-- The receiver takes the oldest message out of its buffer. -/
def receive (c : Channel α) : Option (α × Channel α) :=
  match c.buffer with
  | [] => none
  | a :: buffer => some (a, { c with buffer })

@[simp] theorem contents_empty : (empty : Channel α).contents = [] := rfl

@[simp] theorem contents_send : (c.send a).contents = c.contents ++ [a] :=
  (List.append_assoc ..).symm

@[simp] theorem buffer_send : (c.send a).buffer = c.buffer := rfl

/-- Delivery only changes the order in which messages will be received. -/
theorem contents_deliver (h : c.deliver i = some d) : d.contents.Perm c.contents := by
  obtain ⟨a, ha, rfl⟩ := Option.map_eq_some_iff.mp h
  obtain ⟨hi, rfl⟩ := List.getElem?_eq_some_iff.mp ha
  have hperm : (c.inFlight[i] :: c.inFlight.eraseIdx i).Perm c.inFlight :=
    List.getElem_cons_eraseIdx_perm hi
  simpa [contents] using hperm.append_left c.buffer

/-- Delivery of the oldest message does not even change the order. -/
theorem contents_deliver_zero (h : c.deliver 0 = some d) : d.contents = c.contents := by
  obtain ⟨a, ha, rfl⟩ := Option.map_eq_some_iff.mp h
  obtain ⟨buffer, hcons⟩ : ∃ as, c.inFlight = a :: as := by
    cases hc : c.inFlight with
    | nil => simp [hc] at ha
    | cons b as => exact ⟨as, by simpa [hc] using ha⟩
  simp [contents, hcons]

theorem contents_drop (h : c.drop i = some d) : d.contents.Sublist c.contents := by
  obtain ⟨_, -, rfl⟩ := Option.map_eq_some_iff.mp h
  exact (List.eraseIdx_sublist ..).append_left _

theorem receive_eq_some_iff :
    c.receive = some (a, d) ↔ c.buffer = a :: d.buffer ∧ d.inFlight = c.inFlight := by
  obtain ⟨inFlight, buffer⟩ := c
  obtain ⟨inFlight', buffer'⟩ := d
  cases buffer with
  | nil => simp [receive]
  | cons b buffer =>
      constructor
      · intro h
        cases h
        exact ⟨rfl, rfl⟩
      · rintro ⟨h, rfl⟩
        cases h
        rfl

/-- The receiver takes the front of the channel's contents. -/
theorem contents_receive (h : c.receive = some (a, d)) : c.contents = a :: d.contents := by
  obtain ⟨hbuffer, hflight⟩ := receive_eq_some_iff.mp h
  simp [contents, hbuffer, hflight]

/-- What is delivered moves from the network to the buffer. -/
theorem length_deliver (h : c.deliver i = some d) :
    d.inFlight.length + 1 = c.inFlight.length ∧ d.buffer.length = c.buffer.length + 1 := by
  obtain ⟨a, ha, rfl⟩ := Option.map_eq_some_iff.mp h
  have hi : i < c.inFlight.length := (List.getElem?_eq_some_iff.mp ha).1
  exact ⟨List.length_eraseIdx_add_one hi, by simp⟩

theorem length_drop (h : c.drop i = some d) :
    d.inFlight.length + 1 = c.inFlight.length ∧ d.buffer = c.buffer := by
  obtain ⟨a, ha, rfl⟩ := Option.map_eq_some_iff.mp h
  have hi : i < c.inFlight.length := (List.getElem?_eq_some_iff.mp ha).1
  exact ⟨List.length_eraseIdx_add_one hi, rfl⟩

theorem length_receive (h : c.receive = some (a, d)) :
    d.inFlight = c.inFlight ∧ d.buffer.length + 1 = c.buffer.length := by
  obtain ⟨hbuffer, hflight⟩ := receive_eq_some_iff.mp h
  exact ⟨hflight, by simp [hbuffer]⟩

end Channel
end Osh
