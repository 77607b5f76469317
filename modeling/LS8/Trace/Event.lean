import LS8.Machine

/-! # Traces: events

A traced machine reports to a sink: each instruction before it is carried out, and the end of the
run. An event shows the three bytes at the program counter, of which an instruction may use fewer,
and zero stands for a byte beyond memory. -/

namespace LS8

/-- What a traced machine reports. -/
inductive TraceEvent where
  /-- The instruction at `pc` is about to be carried out. -/
  | start (pc : UInt16) (bytes : Vector UInt8 3) (registers : RegisterFile)
  /-- The instruction at `pc` halted the machine. -/
  | halted (pc : UInt16)
  /-- The instruction at `pc` faulted. -/
  | faulted (cause : Fault) (pc : UInt16)
deriving DecidableEq

/-- The bytes at `address` and the two addresses after it, which follow 65535 with 0; zero where
there is no cell. -/
def Memory.window (m : Memory) (address : UInt16) : Vector UInt8 3 :=
  #v[(m.peek address).getD 0, (m.peek (address + 1)).getD 0, (m.peek (address + 2)).getD 0]

/-- The event before the instruction at the program counter. -/
def Machine.startEvent (m : Machine) : TraceEvent := .start m.pc (m.memory.window m.pc) m.registers

/-- States of type `τ` work as a sink for trace events. -/
class TraceSink (τ : Type) where
  /-- The sink after an event. -/
  record : τ → TraceEvent → τ

/-- The sink of an untraced machine. -/
structure NoTrace where

instance : TraceSink NoTrace := ⟨fun sink _ => sink⟩

/-- A sink that keeps all events in order. -/
structure Recorder where
  events : Array TraceEvent := #[]

instance : TraceSink Recorder := ⟨fun sink e => ⟨sink.events.push e⟩⟩

/-- Two sinks that hear the same events. -/
instance {τ υ : Type} [TraceSink τ] [TraceSink υ] : TraceSink (τ × υ) :=
  ⟨fun sinks e => (TraceSink.record sinks.1 e, TraceSink.record sinks.2 e)⟩

end LS8
