/-
The replay source (include/FileSource.h, src/FileSource.cpp): frames
parsed from the lines of a file, from the top again at its end when
`loop` is set.

# The stream

`IfStream` is as much of `std::ifstream` as the source touches: whether a
file is open, the characters not yet extracted, `eofbit` and `failbit`.
`getline` extracts nothing from a stream that is not good and then sets
`failbit`; a last line without a newline is extracted and sets `eofbit`
alone, so that the call succeeds and the next one fails; at the end of
the file both are set. `close` on a stream with no open file sets
`failbit`; `openPath` clears both when it succeeds and sets `failbit`
when it does not (`disk` is `none` there).

# The loops

`fetch` runs as long as there are lines to skip, and carries fuel: `none`
is a `fetch` still running when the fuel is spent. `std::stod` is a
parameter, `none` where it throws; what the clock shows at a `read` is an
argument of it.
-/
import EdgeIpc.Daemon.TelemetryReceiver

namespace EdgeIpc.Daemon

-- ============================================================ std::ifstream

/-- `std::ifstream`, of no file to begin with. -/
structure IfStream where
  isOpen : Bool := false
  rest : List Char := []
  eofbit : Bool := false
  failbit : Bool := false
  deriving DecidableEq, Repr

namespace IfStream

def close (f : IfStream) : IfStream :=
  if f.isOpen then { f with isOpen := false, rest := [] }
  else { f with failbit := true }

def openPath (disk : Option (List Char)) (f : IfStream) : IfStream :=
  match f.isOpen, disk with
  | false, some content =>
      { isOpen := true, rest := content, eofbit := false, failbit := false }
  | _, _ => { f with failbit := true }

/-- `std::getline(f, line)`: the line, if the stream is then true. -/
def getline (f : IfStream) : IfStream × Option (List Char) :=
  if f.eofbit || f.failbit then ({ f with failbit := true }, none)
  else if f.rest.isEmpty then
    ({ f with eofbit := true, failbit := true }, none)
  else
    let line := f.rest.takeWhile (· != '\n')
    match f.rest.dropWhile (· != '\n') with
    | [] => ({ f with rest := [], eofbit := true }, some line)
    | _ :: rest => ({ f with rest := rest }, some line)

end IfStream

-- ============================================================== the source

/-- `class FileSource`, less `path_`: the one file it opens is the `disk`
of the functions below. -/
structure FileSource where
  sensorId : String
  loop : Bool
  file : IfStream
  deriving DecidableEq, Repr

/-- `!line.empty() && line[0] != '#'`. -/
def isData : List Char → Bool
  | [] => false
  | c :: _ => c != '#'

namespace FileSource

variable {R : Type}

def reopen (disk : Option (List Char)) (s : FileSource) : FileSource :=
  { s with file := s.file.close.openPath disk }

/-- The constructor. -/
def construct (sid : String) (loop : Bool) (disk : Option (List Char)) :
    FileSource :=
  reopen disk { sensorId := sid, loop := loop, file := {} }

/-- The `fetch` of `read`: the next line that is data, if there is one. -/
def fetch : Nat → IfStream → Option (IfStream × Option (List Char))
  | 0, _ => none
  | fuel + 1, file =>
      match file.getline with
      | (file, none) => some (file, none)
      | (file, some line) =>
          if isData line then some (file, some line) else fetch fuel file

/-- The end of `read`: the frame of a line, unless `std::stod` throws. -/
def parse (stod : List Char → Option R) (sid : String) (now : Nat)
    (line : List Char) : Option (TelemetryFrame R) :=
  match stod line with
  | some val => some ⟨sid, val, now⟩
  | none => none

def read (fuel : Nat) (disk : Option (List Char))
    (stod : List Char → Option R) (now : Nat) (s : FileSource) :
    Option (FileSource × Option (TelemetryFrame R)) :=
  match fetch fuel s.file with
  | none => none
  | some (file, some line) =>
      some ({ s with file := file }, parse stod s.sensorId now line)
  | some (file, none) =>
      let s := { s with file := file }
      if !s.loop then some (s, none)
      else
        let s := s.reopen disk
        match fetch fuel s.file with
        | none => none
        | some (file, some line) =>
            some ({ s with file := file }, parse stod s.sensorId now line)
        | some (file, none) => some ({ s with file := file }, none)

/-- One `read` as a step of the source, at the time `now`. -/
def step (fuel : Nat) (disk : Option (List Char))
    (stod : List Char → Option R) (now : Nat) (s : FileSource) :
    Option FileSource :=
  (s.read fuel disk stod now).map Prod.fst

end FileSource

end EdgeIpc.Daemon
