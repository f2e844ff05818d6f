import TapeLang.Error

/-!
# Consoles

What a running program sees of the world: events to read, a place to write bytes, and flushes.  A console is any type
with these three operations; here are the sources and sinks that consoles are made of.

* `Script` gives listed events and then cancels.
* `Reader` takes items from a byte stream, where the escape byte and the end of the stream cancel.
* `LineInput` does the same and knows whether the last line it touched was read to its end.
* `Sink` collects bytes and refuses at chosen moments.
-/

namespace TapeLang

/-- What a program gets when it asks for input. -/
inductive Event where
  | byte (value : UInt8)
  | cancel
deriving DecidableEq

/-- Where a program reads from. -/
class Source (σ : Type) where
  /-- The next event, or a refusal; and the source afterwards. -/
  next : σ → Except Fault Event × σ

/-- Where a program writes to. -/
class Drain (τ : Type) where
  /-- Takes one byte. -/
  write : UInt8 → τ → Except Fault Unit × τ
  /-- Hands on what was taken. -/
  flush : τ → Except Fault Unit × τ

/-- What a program runs on. -/
class Console (κ : Type) where
  /-- Asks for input. -/
  read : κ → Except Fault Event × κ
  /-- Writes one byte. -/
  write : UInt8 → κ → Except Fault Unit × κ
  /-- Flushes the output. -/
  flush : κ → Except Fault Unit × κ

instance {σ τ : Type} [Source σ] [Drain τ] : Console (σ × τ) where
  read | (s, t) => let (answer, s) := Source.next s; (answer, (s, t))
  write | b, (s, t) => let (answer, t) := Drain.write b t; (answer, (s, t))
  flush | (s, t) => let (answer, t) := Drain.flush t; (answer, (s, t))

/-! ## Sources -/

/-- Listed events; a script that has run dry cancels. -/
structure Script where
  /-- The events still to come. -/
  events : List Event

namespace Script

/-- A script of data bytes. -/
def ofBytes (bytes : List UInt8) : Script := ⟨bytes.map .byte⟩

/-- The next event. -/
def next : Script → Event × Script
  | ⟨[]⟩ => (.cancel, ⟨[]⟩)
  | ⟨e :: rest⟩ => (e, ⟨rest⟩)

instance : Source Script where
  next s := let (e, s) := s.next; (.ok e, s)

end Script

/-- What one read call on a byte stream gives. -/
inductive Item where
  /-- One byte. -/
  | byte (value : UInt8)
  /-- Nothing: the end, for now. -/
  | eof
  /-- An interruption; the call is to be repeated. -/
  | interrupted
  /-- A refusal. -/
  | fail (text : String)
deriving DecidableEq

/-- The byte that cancels input on a stream. -/
def escape : UInt8 := 0x1b

/-- The byte that ends a line. -/
def newline : UInt8 := 0x0a

/-- What a data byte of a stream means to a program. -/
def Event.ofByte (b : UInt8) : Event := if b = escape then .cancel else .byte b

/-- A byte stream: the answers to the read calls to come.  After the last one it stays at its end. -/
structure Reader where
  /-- The answers still to come. -/
  items : List Item

namespace Reader

/-- The next event of a stream; interruptions are passed over. -/
def nextOf : List Item → Except Fault Event × List Item
  | [] => (.ok .cancel, [])
  | .byte b :: rest => (.ok (.ofByte b), rest)
  | .eof :: rest => (.ok .cancel, rest)
  | .interrupted :: rest => nextOf rest
  | .fail text :: rest => (.error (.other text), rest)

instance : Source Reader where
  next r := let (answer, items) := nextOf r.items; (answer, ⟨items⟩)

end Reader

/-- A byte stream that is read line by line by others between runs. -/
structure LineInput where
  /-- The answers still to come. -/
  items : List Item
  /-- Whether the last byte taken was not the end of a line. -/
  midLine : Bool := false

namespace LineInput

/-- The next event, and whether a line was left unfinished by it. -/
def nextOf (midLine : Bool) : List Item → Except Fault Event × LineInput
  | [] => (.ok .cancel, ⟨[], false⟩)
  | .byte b :: rest => (.ok (.ofByte b), ⟨rest, b != newline⟩)
  | .eof :: rest => (.ok .cancel, ⟨rest, false⟩)
  | .interrupted :: rest => nextOf midLine rest
  | .fail text :: rest => (.error (.other text), ⟨rest, midLine⟩)

instance : Source LineInput where
  next l := nextOf l.midLine l.items

/-- Drops items up to and including the next newline, or to an end of the stream. -/
def dropLine : List Item → Except Fault Unit × List Item
  | [] => (.ok (), [])
  | .byte b :: rest => if b = newline then (.ok (), rest) else dropLine rest
  | .eof :: rest => (.ok (), rest)
  | .interrupted :: rest => dropLine rest
  | .fail text :: rest => (.error (.other text), rest)

/-- Gives the stream back at the start of a line: what is left of a partly read line is dropped. -/
def finish (l : LineInput) : Except Fault Unit × List Item :=
  if l.midLine then dropLine l.items else (.ok (), l.items)

end LineInput

/-! ## Sinks -/

/-- When a sink refuses. -/
structure SinkFaults where
  /-- A write at this number of accepted bytes is refused with this text. -/
  failAt : Option (Nat × String) := none
  /-- A write at this number of accepted bytes accepts nothing. -/
  fullAt : Option Nat := none
  /-- A flush after this number of flushes is refused with this text. -/
  flushFailAt : Option (Nat × String) := none

/-- Collects bytes and remembers its flushes. -/
structure Sink where
  /-- When it refuses. -/
  faults : SinkFaults := {}
  /-- The bytes accepted, in order. -/
  accepted : Array UInt8 := #[]
  /-- For each flush the number of bytes accepted before it, in order. -/
  flushes : Array Nat := #[]

namespace Sink

/-- The refusal that the next byte meets, if it meets one. -/
def refusal? (s : Sink) : Option Fault :=
  match s.faults.failAt with
  | some (n, text) => if s.accepted.size = n then some (.other text) else full? s
  | none => full? s
where
  /-- The refusal of a sink that takes no more. -/
  full? (s : Sink) : Option Fault := if s.faults.fullAt = some s.accepted.size then some .sinkFull else none

/-- Accepts a byte or refuses it. -/
def write (b : UInt8) (s : Sink) : Except Fault Unit × Sink :=
  match s.refusal? with
  | some f => (.error f, s)
  | none => (.ok (), { s with accepted := s.accepted.push b })

/-- The refusal that the next flush meets, if it meets one. -/
def flushRefusal? (s : Sink) : Option Fault :=
  match s.faults.flushFailAt with
  | some (n, text) => if s.flushes.size = n then some (.other text) else none
  | none => none

/-- Notes a flush or refuses it. -/
def flush (s : Sink) : Except Fault Unit × Sink :=
  match s.flushRefusal? with
  | some f => (.error f, s)
  | none => (.ok (), { s with flushes := s.flushes.push s.accepted.size })

instance : Drain Sink where
  write := Sink.write
  flush := Sink.flush

end Sink
end TapeLang
