import Estuary.Engine.Run

/-!
# Engine — channels

What a queue between producers and a consumer is for: what goes in comes out, once and in order. A
`Channel` accepts items at one end and delivers items at the other, and remembers both.

* **`channel_whole`** — what was accepted is what was delivered followed by what is queued, in every
  run of a channel;
* **`channelStep_deliver`** — what is at the front of the queue can be delivered.

A program's queue is shown to be one with the simulation rule `Run.simulates`.
-/

namespace Engine

variable {α : Type}

/-- A first-in first-out queue with its history. -/
structure Channel (α : Type) where
  accepted : List α
  queue : List α
  delivered : List α

inductive ChannelAct (α : Type) where
  | accept (item : α)
  | deliver (n : Nat)       -- the next `n` items

/-- Nothing has happened. -/
def Channel.empty : Channel α := ⟨[], [], []⟩

def channelStep (c : Channel α) : ChannelAct α → Option (Channel α)
  | .accept item =>
    some { c with accepted := c.accepted ++ [item], queue := c.queue ++ [item] }
  | .deliver n =>
    if n ≤ c.queue.length then
      some { c with queue := c.queue.drop n, delivered := c.delivered ++ c.queue.take n }
    else none

/-- Nothing is lost, doubled or out of order. -/
def Channel.Whole (c : Channel α) : Prop := c.accepted = c.delivered ++ c.queue

theorem Channel.Whole.step (c : Channel α) (a : ChannelAct α) (d : Channel α) (h : c.Whole)
    (hstep : channelStep c a = some d) : d.Whole := by
  have hwhole : c.accepted = c.delivered ++ c.queue := h
  cases a with
  | accept item =>
    cases hstep
    show c.accepted ++ [item] = c.delivered ++ (c.queue ++ [item])
    rw [hwhole, List.append_assoc]
  | deliver n =>
    simp only [channelStep] at hstep
    split at hstep
    · cases hstep
      show c.accepted = c.delivered ++ c.queue.take n ++ c.queue.drop n
      rw [List.append_assoc, List.take_append_drop, hwhole]
    · cases hstep

/-- **A channel loses nothing.** -/
theorem channel_whole {acts : List (ChannelAct α)} {c : Channel α}
    (h : exec channelStep .empty acts = some c) : c.Whole :=
  (exec_iff_run.mp h).invariant (fun c a d hI _ hstep => hI.step c a d hstep) rfl

theorem channelStep_deliver {c : Channel α} {front rest : List α} (h : c.queue = front ++ rest) :
    channelStep c (.deliver front.length)
      = some { c with queue := rest, delivered := c.delivered ++ front } := by
  have hle : front.length ≤ c.queue.length := by
    rw [h, List.length_append]
    exact Nat.le_add_right _ _
  rw [channelStep, if_pos hle, h, List.take_left, List.drop_left]

end Engine
