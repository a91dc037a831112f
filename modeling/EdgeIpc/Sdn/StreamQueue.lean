/-
The stream of processed snapshots of a node (TelemetryNode.cpp:
`PushSnapshot`, `PopSnapshot`, `ServiceImpl::StreamTelemetry`): a bounded
queue that drops its oldest entry, one producer, any number of streaming
calls that take entries out of it.

# The steps

`PushSnapshot` and the body of `PopSnapshot` run under `stream_mu_`, so
each is one step. A call of `StreamTelemetry` goes round its loop: the
check of cancellation and deadline (`check`), `PopSnapshot` (`pop`), and
`writer->Write` (`write`), which ends the call if it fails. Whether a
call is cancelled, how long a wait lasts and whether a write succeeds are
the environment's choices. `PopSnapshot` on an empty queue returns false
once its timeout is over or the node stops, and waits otherwise.

# What is added to the source

The queue's entries carry the number of their push. `pushed` and
`evicted` record what went in and what the bound pushed out, `joined` how
many snapshots had been pushed when a call first came to `PopSnapshot`,
`delivered` what was written to it. Neither the queue nor the course of a
call depends on them: `enter` looks at `joined` only to write it once.
-/

namespace EdgeIpc.Sdn

/-- `STREAM_QUEUE_CAP`. -/
def streamQueueCap : Nat := 256

/-- Where a `StreamTelemetry` call stands. -/
inductive StreamPc (S : Type) where
  | absent
  | checking
  | popping
  | writing (entry : Nat × S)
  | ended

/-- The queue and the calls that read from it. -/
structure StreamQueue (S : Type) where
  queue : List (Nat × S) := []
  calls : Nat → StreamPc S := fun _ => .absent
  pushed : List (Nat × S) := []
  evicted : List Nat := []
  joined : Nat → Option Nat := fun _ => none
  delivered : Nat → List (Nat × S) := fun _ => []

/-- One move: a push, a call arriving, or its next step. -/
inductive StreamAct (S : Type) where
  | push (snap : S)
  | connect (c : Nat)
  | check (c : Nat) (proceed : Bool)
  | pop (c : Nat) (giveUp : Bool)
  | write (c : Nat) (ok : Bool)

namespace StreamQueue

variable {S : Type}

/-- Call `c` moves to another point of its loop. -/
def goto (s : StreamQueue S) (c : Nat) (p : StreamPc S) : StreamQueue S :=
  { s with calls := fun d => if d = c then p else s.calls d }

/-- Call `c` comes to its first `PopSnapshot`. -/
def subscribe (s : StreamQueue S) (c : Nat) : StreamQueue S :=
  ({ s with
      joined := fun d =>
        if d = c then some s.pushed.length else s.joined d }).goto c .popping

/-- Call `c` comes to `PopSnapshot`. -/
def enter (s : StreamQueue S) (c : Nat) : StreamQueue S :=
  match s.joined c with
  | none => s.subscribe c
  | some _ => s.goto c .popping

/-- `writer->Write(s)` has succeeded for call `c`. -/
def deliver (s : StreamQueue S) (c : Nat) (entry : Nat × S) :
    StreamQueue S :=
  ({ s with
      delivered := fun d =>
        if d = c then s.delivered d ++ [entry] else s.delivered d }).goto c
    .checking

/-- `PushSnapshot(snap)`: drop the oldest to keep the queue bounded. -/
def pushSnapshot (s : StreamQueue S) (snap : S) : StreamQueue S :=
  let entry := (s.pushed.length, snap)
  let full := streamQueueCap ≤ s.queue.length
  { s with
    queue := (if full then s.queue.tail else s.queue) ++ [entry]
    evicted :=
      if full then s.evicted ++ (s.queue.take 1).map Prod.fst else s.evicted
    pushed := s.pushed ++ [entry] }

/-- `PopSnapshot` by call `c`: the front entry, or nothing. -/
def popSnapshot (s : StreamQueue S) (c : Nat) (giveUp : Bool) :
    Option (StreamQueue S) :=
  match s.queue with
  | entry :: rest => some (({ s with queue := rest }).goto c (.writing entry))
  | [] => if giveUp then some (s.goto c .checking) else none

/-- The transition function of the queue and its calls. -/
def step (a : StreamAct S) (s : StreamQueue S) : Option (StreamQueue S) :=
  match a with
  | .push snap => some (s.pushSnapshot snap)
  | .connect c =>
      match s.calls c with
      | .absent => some (s.goto c .checking)
      | _ => none
  | .check c proceed =>
      match s.calls c with
      | .checking => some (if proceed then s.enter c else s.goto c .ended)
      | _ => none
  | .pop c giveUp =>
      match s.calls c with
      | .popping => s.popSnapshot c giveUp
      | _ => none
  | .write c ok =>
      match s.calls c with
      | .writing entry =>
          some (if ok then s.deliver c entry else s.goto c .ended)
      | _ => none

/-- No snapshot pushed, no call made. -/
def init : StreamQueue S := {}

end StreamQueue

end EdgeIpc.Sdn
