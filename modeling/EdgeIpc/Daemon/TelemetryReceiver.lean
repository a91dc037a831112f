/-
The lock-free ring between the producer thread and the main loop
(include/TelemetryReceiver.h, src/TelemetryReceiver.cpp), one producer
doing `push`, one consumer doing `pop`.

# The steps

Each access to shared data is one step: the loads of `tail_` and
`head_`, the slot write, the release store, and on the refusing path the
`fetch_add` on `dropped_`. An operation's first load happens when it is
called; it returns at its last access (the store of `tail_` or `head_`,
the `fetch_add`, or the load that finds the ring empty). Steps of the
two threads interleave in any order.

`out = std::move(buf_[head])` leaves the slot in a moved-from state,
valid but unspecified: `movedFrom` says what remains there, and nothing
is assumed of it.

# What is added to the source

`pushed` lists the frames of the pushes that were accepted (their
`tail_` store happened), `popped` the frames of the pops that returned
one (their `head_` store happened). `fullAt` has an entry for every push
that returned false: the number of accepted frames unpopped at its load
of `head_`. `emptyAt` has one for every pop that returned false, taken
at its load of `tail_`. No step reads the four.
-/
import Mathlib.Algebra.Group.Nat.Defs

namespace EdgeIpc.Daemon

/-- `struct TelemetryFrame`; the sample type is a parameter. -/
structure TelemetryFrame (R : Type) where
  sensorId : String
  value : R
  timestamp : Nat
  deriving DecidableEq, Repr

/-- `TelemetryReceiver::CAPACITY`. -/
def capacity : Nat := 1024

/-- Where the producer stands inside `push`. -/
inductive PushPc (R : Type) where
  | idle
  | loadHead (frame : TelemetryFrame R) (tail : Nat)
  | bumpDropped (unpopped : Nat)
  | writeSlot (frame : TelemetryFrame R) (tail next : Nat)
  | storeTail (frame : TelemetryFrame R) (next : Nat)
  deriving DecidableEq, Repr

/-- Where the consumer stands inside `pop`. -/
inductive PopPc (R : Type) where
  | idle
  | loadTail (head : Nat)
  | readSlot (head : Nat)
  | storeHead (head : Nat) (out : TelemetryFrame R)
  deriving DecidableEq, Repr

/-- The ring and the two threads inside its operations. -/
structure TelemetryReceiver (R : Type) where
  buf : Nat → TelemetryFrame R
  head : Nat := 0
  tail : Nat := 0
  dropped : Nat := 0
  producer : PushPc R := .idle
  consumer : PopPc R := .idle
  pushed : List (TelemetryFrame R) := []
  popped : List (TelemetryFrame R) := []
  fullAt : List Nat := []
  emptyAt : List Nat := []

/-- One move: a call of `push` or `pop`, or the next access inside it. -/
inductive RxAct (R : Type) where
  | push (frame : TelemetryFrame R)
  | producer
  | pop
  | consumer
  deriving DecidableEq, Repr

namespace TelemetryReceiver

variable {R : Type}

/-- Store into one slot of `buf_`. -/
def setSlot (buf : Nat → TelemetryFrame R) (i : Nat)
    (f : TelemetryFrame R) : Nat → TelemetryFrame R :=
  fun j => if j = i then f else buf j

/-- How many accepted frames are unpopped. -/
def unpopped (s : TelemetryReceiver R) : Nat :=
  s.pushed.length - s.popped.length

/-- The next access of `push`. -/
def pushStep (s : TelemetryReceiver R) : Option (TelemetryReceiver R) :=
  match s.producer with
  | .idle => none
  | .loadHead frame tail =>
      let next := (tail + 1) % capacity
      if next = s.head then
        some { s with producer := .bumpDropped s.unpopped }
      else
        some { s with producer := .writeSlot frame tail next }
  | .bumpDropped n =>
      some { s with
        dropped := (s.dropped + 1) % 2 ^ 64
        producer := .idle
        fullAt := s.fullAt ++ [n] }
  | .writeSlot frame tail next =>
      some { s with
        buf := setSlot s.buf tail frame
        producer := .storeTail frame next }
  | .storeTail frame next =>
      some { s with
        tail := next
        producer := .idle
        pushed := s.pushed ++ [frame] }

/-- The next access of `pop`. -/
def popStep (movedFrom : TelemetryFrame R → TelemetryFrame R)
    (s : TelemetryReceiver R) : Option (TelemetryReceiver R) :=
  match s.consumer with
  | .idle => none
  | .loadTail head =>
      if head = s.tail then
        some { s with
          consumer := .idle
          emptyAt := s.emptyAt ++ [s.unpopped] }
      else
        some { s with consumer := .readSlot head }
  | .readSlot head =>
      some { s with
        buf := setSlot s.buf head (movedFrom (s.buf head))
        consumer := .storeHead head (s.buf head) }
  | .storeHead head out =>
      some { s with
        head := (head + 1) % capacity
        consumer := .idle
        popped := s.popped ++ [out] }

/-- The transition function of the ring and its two threads. -/
def step (movedFrom : TelemetryFrame R → TelemetryFrame R) (a : RxAct R)
    (s : TelemetryReceiver R) : Option (TelemetryReceiver R) :=
  match a with
  | .push frame =>
      match s.producer with
      | .idle => some { s with producer := .loadHead frame s.tail }
      | _ => none
  | .producer => s.pushStep
  | .pop =>
      match s.consumer with
      | .idle => some { s with consumer := .loadTail s.head }
      | _ => none
  | .consumer => s.popStep movedFrom

/-- A fresh receiver: `buf_{}` holds value-initialised frames. -/
def init (blank : TelemetryFrame R) : TelemetryReceiver R :=
  { buf := fun _ => blank }

end TelemetryReceiver

end EdgeIpc.Daemon
