/-!
Where printed lines go: bytes written so far, and the ways in which writing can fail. A sink
with a capacity keeps the part of a line that still fits.
-/

namespace Lox

/-- Why a line was not written. -/
inductive SinkError where
  /-- The capacity is used up. -/
  | closed
  /-- The bytes were taken, but not passed on. -/
  | flushRefused
  deriving DecidableEq, Repr

/-- The wording of the error. -/
def SinkError.message : SinkError → String
  | .closed => "sink closed"
  | .flushRefused => "flush refused"

/-- An output sink. -/
structure Sink where
  written : ByteArray
  /-- The number of bytes it takes in all, if that is limited. -/
  capacity : Option Nat
  /-- Lines are passed on when they are written. -/
  flushes : Bool

namespace Sink

/-- A sink that never fails. -/
def unlimited : Sink := ⟨ByteArray.empty, none, true⟩

/-- The number of bytes written. -/
def size (sink : Sink) : Nat := sink.written.size

/-- The text fits into what is left of the capacity. -/
def fits (sink : Sink) (bytes : ByteArray) : Bool :=
  match sink.capacity with
  | none => true
  | some capacity => sink.size + bytes.size ≤ capacity

/-- The part of some bytes that is written. -/
def part (sink : Sink) (bytes : ByteArray) : ByteArray :=
  match sink.capacity with
  | none => bytes
  | some capacity => bytes.extract 0 (capacity - sink.size)

/-- Writes a text and a newline: the sink after it, and the error if there was one. -/
def writeLine (sink : Sink) (text : String) : Option SinkError × Sink :=
  let bytes := (text ++ "\n").toUTF8
  let error :=
    if !sink.fits bytes then some .closed
    else if !sink.flushes then some .flushRefused
    else none
  (error, { sink with written := sink.written ++ sink.part bytes })

end Sink

end Lox
