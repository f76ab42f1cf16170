import Famicom.Bus.Flat
import Famicom.Bus.Recorded
import Famicom.Main
import Famicom.Proofs.Bus.Path
import Famicom.Proofs.Bus.Simulation
import Famicom.Proofs.Memory.Access
import Famicom.Proofs.Bus.Recording
import Famicom.Proofs.Ppu.Standing
import Famicom.Proofs.Console.Events
import Famicom.Proofs.Console.Standing
import Famicom.Proofs.Cpu.CycleByCycle
import Famicom.Proofs.Cpu.Footprint
import Famicom.Proofs.Board.Blank
import Famicom.Proofs.Console.Program
import Famicom.Proofs.Console.Lockstep
import Famicom.Proofs.Ppu.VerticalBlank
import Famicom.Proofs.Console.Spinning
import Famicom.Proofs.Console.Nmi
import Famicom.Proofs.Console.Loop
import Famicom.Proofs.Console.Stepping
import Famicom.Proofs.Ppu.Fetch
import Famicom.Proofs.Ppu.Places
import Famicom.Proofs.Ppu.ShiftRegister
import Famicom.Proofs.Board.Shown
import Famicom.Proofs.Ppu.Pipeline
import Famicom.Proofs.Ppu.Course
import Famicom.Proofs.Ppu.Reachable
import Famicom.Proofs.Ppu.Lookup
import Famicom.Proofs.Ppu.Unfailing
import Famicom.Proofs.Board.Decoder
import Famicom.Proofs.Board.Serial
import Famicom.Proofs.Ppu.Frames
import Famicom.Proofs.Ppu.Approach
import Famicom.Proofs.Console.Scan
import Famicom.Proofs.Console.Reachable
import Famicom.Proofs.Console.Loading
import Famicom.Proofs.Console.Frame
import Famicom.Proofs.Apu.Beats
import Famicom.Proofs.Apu.Reader
import Famicom.Proofs.Apu.Pace
import Famicom.Proofs.Memory.Sample
import Famicom.Proofs.Console.Stolen
import Famicom.Proofs.Console.Debt
import Famicom.Proofs.Cartridge.Image
import Famicom.Proofs.Memory.Twin
import Famicom.Proofs.Console.Twin
import Famicom.Proofs.Console.SampleRate
import Famicom.Proofs.Console.Draining
import Famicom.Proofs.Board.Lockout
import Famicom.Proofs.Memory.ProgramRom
import Famicom.Proofs.Cpu.StoreCost
import Famicom.Proofs.Console.Lockout
import Famicom.Proofs.Apu.Pointers
import Famicom.Proofs.Board.Cells
import Famicom.Proofs.Memory.Decode
import Famicom.Proofs.Board.Windows
import Famicom.Proofs.Cpu.Stopping
import Famicom.Proofs.Console.Stopping
import Famicom.Proofs.Cpu.Chain
import Famicom.Proofs.Cpu.LongBinary
import Famicom.Proofs.Cpu.LongDecimal
import Famicom.Proofs.Cpu.DecimalFlag
import Famicom.Proofs.Cpu.Return
import Famicom.Proofs.Cpu.Stack
import Famicom.Proofs.Cpu.Calls
import Famicom.Proofs.Cpu.Timing
import Famicom.Proofs.Ppu.SpriteSearch
import Famicom.Proofs.Ppu.QuietLine
import Famicom.Proofs.Ppu.Compositing
import Famicom.Proofs.Ppu.Calls
import Famicom.Proofs.Ppu.StatusFlags
import Famicom.Proofs.Ppu.DoubleWrites
import Famicom.Proofs.Ppu.DataPort
import Famicom.Proofs.Ppu.Screen
import Famicom.Proofs.Memory.Transfer
import Famicom.Proofs.Apu.Channels
import Famicom.Proofs.Apu.Requests
import Famicom.Proofs.Apu.Lengths
import Famicom.Proofs.Apu.Calls
import Famicom.Proofs.Apu.Decay
import Famicom.Proofs.Apu.Mix
import Famicom.Proofs.Apu.Sweep
import Famicom.Proofs.Pad
import Famicom.Proofs.Apu.Feedback
import Famicom.Proofs.Apu.Timers
import Famicom.Proofs.Double.Nearest
import Famicom.Proofs.Double.Rounding
import Famicom.Proofs.Double.Arithmetic
import Famicom.Proofs.Apu.SampleClock
import Famicom.Proofs.Text.Digits
import Famicom.Proofs.Text.Padding
import Famicom.Proofs.CommandLine.ButtonNames
import Famicom.Proofs.CommandLine.Picture
import Famicom.Proofs.Ppu.Plane
