/-
# The console

Processor, address space and the count of frames.  All run in lockstep: in one machine cycle the
picture unit draws three dots and the sound unit, the cartridge and the processor go one cycle on,
always in that order.  An NMI is taken after the first of the three dots.
-/

import Famicom.Cpu.Step
import Famicom.Memory.Basic

namespace Famicom

/-- Why the console cannot do what it is asked to. -/
inductive Fault where
  /-- The image gives no cartridge, or there is no board for it. -/
  | cartridge (f : Cartridge.Fault)
  /-- The processor stopped. -/
  | cpu (f : Cpu.Fault)
  /-- A run met its bound on the cycles. -/
  | outOfCycles
deriving DecidableEq, Repr

/-- The fault in words. -/
def Fault.message : Fault → String
  | cartridge f => "cartridge load failed: " ++ f.message
  | cpu f => "CPU halted: " ++ f.message
  | outOfCycles => "run out of cycles"

/-- How a console is set up. -/
structure Console.Settings where
  /-- The samples in a second. -/
  sampleRate : Nat := Apu.defaultRate
  /-- Whether the processor obeys the D flag. -/
  decimalMode : Bool := false
deriving DecidableEq, Repr

/-- The console. -/
structure Console where
  cpu : Cpu
  memory : Memory
  /-- The frames finished since the last reset. -/
  frames : Nat := 0
  settings : Console.Settings := {}

namespace Console

/-- Reset the console. -/
def reset (c : Console) : Console :=
  let (cpu, memory) := c.cpu.reset c.memory.reset
  { c with cpu, memory, frames := 0 }

/-- The board of an image. -/
def boardOf (image : Array UInt8) : Except Cartridge.Fault Board :=
  Cartridge.parse image >>= Board.ofCartridge

/-- A console with a board in it, after a reset. -/
def ofBoard (board : Board) (settings : Settings) : Console :=
  reset {
    cpu := { decimalMode := settings.decimalMode }
    memory := .ofBoard board settings.sampleRate
    settings }

/-- A console with a cartridge in it, after a reset. -/
def ofCartridge (cartridge : Cartridge) (settings : Settings) : Except Fault Console :=
  match Board.ofCartridge cartridge with
  | .ok board => .ok (ofBoard board settings)
  | .error f => .error (.cartridge f)

/-- A console with the cartridge of an image in it, after a reset. -/
def ofImage (image : Array UInt8) (settings : Settings) : Except Fault Console :=
  match Cartridge.parse image with
  | .ok cartridge => ofCartridge cartridge settings
  | .error f => .error (.cartridge f)

/-- Put another cartridge in.  If the image is refused the old one stays, and nothing has
changed. -/
def load (c : Console) (image : Array UInt8) : Except Fault Unit × Console :=
  match boardOf image with
  | .ok board => (.ok (), reset { c with memory := .ofBoard board c.settings.sampleRate })
  | .error f => (.error (.cartridge f), c)

/-- The picture unit, the sound unit and the cartridge do their share of a machine cycle. -/
@[inline] def tickHardware (c : Console) : Console :=
  let { cpu, memory, frames, settings } := c
  let (nmi, memory) := memory.tickPpu.takeNmi
  let (cpu, memory) := if nmi then cpu.nmi memory else (cpu, memory)
  let memory := memory.tickPpu.tickPpu.tickApu.tickBoard
  let (stolen, memory) := memory.takeStall
  { cpu := cpu.stall stolen, memory, frames, settings }

/-- The processor does its share of a machine cycle. -/
@[inline] def tickCpu (c : Console) : Except Cpu.Fault Unit × Console :=
  let { cpu, memory, frames, settings } := c
  let (result, cpu, memory) := cpu.tick memory
  (result, { cpu, memory, frames, settings })

/-- One machine cycle. -/
def cycle (c : Console) : Except Cpu.Fault Unit × Console := c.tickHardware.tickCpu

/-- Read a byte of the address space. -/
def read (c : Console) (address : UInt16) : UInt8 × Console :=
  let { cpu, memory, frames, settings } := c
  let (v, memory) := memory.read address
  (v, { cpu, memory, frames, settings })

/-- Write a byte of the address space. -/
def write (c : Console) (address : UInt16) (v : UInt8) : Console :=
  { c with memory := c.memory.write address v }

/-- Hold exactly the buttons of `b`. -/
def hold (c : Console) (b : UInt8) : Console := { c with memory := c.memory.hold b }

/-- The samples since they were last dropped. -/
def samples (c : Console) : Array Float32 := c.memory.apu.samples

/-- Drop the samples. -/
def clearSamples (c : Console) : Console := { c with memory := c.memory.clearSamples }

/-- The screen. -/
def screen (c : Console) : Vector (Vector UInt32 256) 240 := c.memory.ppu.frame

end Console
end Famicom
