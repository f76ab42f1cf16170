/-
# How a sample is played

The delta modulation channel cannot reach memory, so its bytes are read for it at the end of each
cycle of the sound unit (`Memory.dmc_tickApu`).  Between two of these cycles anything may happen to
the address space (`Memory.Move`); the channel is reached only by writes to its own registers and to
the switch of all channels (`Memory.dmc_write`).  As long as there are none of them a sample that
has been started is played (`Memory.plays_after`), so that the bytes which are read, when they are
read, and what comes after the last of them do not hang on anything else
(`Memory.sample_is_played`).
-/

import Famicom.Proofs.Apu.Pace
import Famicom.Proofs.Board.Blank
import Famicom.Proofs.Memory.Access

namespace Famicom
namespace Memory

open Apu (Dmc)

/-- The registers of the channel lie in the address space where those of the sound unit do. -/
theorem dmc_write (m : Memory) (address : UInt16) (v : UInt8) :
    (m.write address v).apu.dmc = m.apu.dmc.write address v := by
  have within : ∀ r ∈ Dmc.registers, 0x4000 ≤ r ∧ r < 0x4018 := by
    simp only [Dmc.registers, List.mem_cons, List.not_mem_nil, or_false]
    rintro r (rfl | rfl | rfl | rfl | rfl) <;> decide
  have outside (h : address < 0x4000 ∨ ¬ address < 0x4018) :
      m.apu.dmc.write address v = m.apu.dmc := by
    refine Dmc.write_of_not_mem (fun hr => ?_) _ _
    obtain ⟨hl, hu⟩ := within address hr
    exact h.elim (UInt16.not_lt.2 hl) (· hu)
  by_cases ha : address = 0x4014
  · rw [ha, write_oamDma]
    exact (spared_copyToOam m (pageAddresses v)).dmc
  · rw [write_eq ha]
    dsimp only
    split
    · exact Apu.dmc_write m.apu address v
    · rename_i h
      rw [outside (by grind)]

/-- The byte at an address when the channel is served. -/
def sampleByte (m : Memory) (address : UInt16) : UInt8 :=
  ({ m with apu := m.apu.tick }.read address).1

/-- A cycle of the sound unit is one of the channel, which is served from memory. -/
theorem dmc_tickApu (m : Memory) : m.tickApu.apu.dmc = m.apu.dmc.cycle m.sampleByte := by
  have ht : ({ m with apu := m.apu.tick } : Memory).apu.dmc = m.apu.dmc.clockTimer := m.apu.dmc_tick
  unfold tickApu fetchSample
  rw [Dmc.cycle, Dmc.serve, ← ht]
  cases ({ m with apu := m.apu.tick } : Memory).apu.dmc.fetchAddress? with
  | none => rfl
  | some address => exact congrArg (Dmc.fill · (m.sampleByte address)) (spared_read _ address).dmc

/-! ### Moves of an address space

What is said of a sample holds for any order in which the chips are moved and accesses are made,
whoever makes them. -/

/-- What can happen to the address space. -/
inductive Move where
  | tickPpu
  | takeNmi
  | tickApu
  | tickBoard
  | takeStall
  | read (address : UInt16)
  | write (address : UInt16) (v : UInt8)
  | hold (buttons : UInt8)
  | clearFrameReady
  | clearSamples
deriving DecidableEq, Repr

namespace Move

/-- Whether it is a cycle of the sound unit. -/
def isTickApu : Move → Bool
  | tickApu => true
  | _ => false

/-- Whether the delta modulation channel is left to itself. -/
def sparesSample : Move → Bool
  | write address _ => !Dmc.registers.contains address
  | _ => true

end Move

/-- The address space afterwards. -/
def move (m : Memory) : Move → Memory
  | .tickPpu => m.tickPpu
  | .takeNmi => m.takeNmi.2
  | .tickApu => m.tickApu
  | .tickBoard => m.tickBoard
  | .takeStall => m.takeStall.2
  | .read address => (m.read address).2
  | .write address v => m.write address v
  | .hold buttons => m.hold buttons
  | .clearFrameReady => m.clearFrameReady
  | .clearSamples => m.clearSamples

/-- The address space after all of a list. -/
def afterMoves (m : Memory) (moves : List Move) : Memory := moves.foldl move m

/-- What happens to a byte of the sample. -/
def sampleEventsOf (m : Memory) : Move → List Dmc.Event
  | .tickApu => m.apu.dmc.cycleEvents m.sampleByte
  | _ => []

/-- What happens to the bytes of the sample, the first event in front. -/
def sampleEvents (m : Memory) : List Move → List Dmc.Event
  | [] => []
  | x :: rest => m.sampleEventsOf x ++ (m.move x).sampleEvents rest

/-- Nothing but a cycle of the sound unit and a write to its own registers reaches the channel. -/
theorem dmc_move (m : Memory) {x : Move} (hs : x.sparesSample = true) (hn : x.isTickApu = false) :
    (m.move x).apu.dmc = m.apu.dmc ∧ m.sampleEventsOf x = [] := by
  cases x with
  | tickApu => cases hn
  | takeNmi =>
    refine ⟨?_, rfl⟩
    rw [move, takeNmi]
    split <;> rfl
  | takeStall =>
    refine ⟨?_, rfl⟩
    rw [move, takeStall]
    split <;> rfl
  | read address => exact ⟨(spared_read m address).dmc, rfl⟩
  | write address v =>
    refine ⟨(dmc_write m address v).trans (Dmc.write_of_not_mem ?_ _ _), rfl⟩
    simpa [Move.sparesSample] using hs
  | tickPpu | tickBoard | hold | clearFrameReady | clearSamples => exact ⟨rfl, rfl⟩

/-- **As long as the channel is left to itself its sample is played.** -/
theorem plays_after {d₀ : Dmc} {cycles : Nat} {log : List Dmc.Event} {m : Memory}
    (h : Dmc.Plays d₀ cycles log m.apu.dmc) {moves : List Move}
    (hs : ∀ x ∈ moves, x.sparesSample = true) :
    Dmc.Plays d₀ (cycles + moves.countP Move.isTickApu) (log ++ m.sampleEvents moves)
      (m.afterMoves moves).apu.dmc := by
  -- the induction is on the moves; only a cycle of the sound unit goes on playing
  induction moves generalizing m cycles log with
  | nil => simpa [sampleEvents, afterMoves] using h
  | cons x rest ih =>
    have hr : ∀ y ∈ rest, y.sparesSample = true := fun y hy => hs y (List.mem_cons_of_mem _ hy)
    rw [sampleEvents, ← List.append_assoc, List.countP_cons]
    cases hx : x.isTickApu with
    | false =>
      obtain ⟨hd, he⟩ := m.dmc_move (hs x (List.mem_cons_self ..)) hx
      rw [he, List.append_nil]
      rw [← hd] at h
      exact ih h hr
    | true =>
      have hx' : x = .tickApu := by cases x <;> first | rfl | cases hx
      subst hx'
      have hc := h.cycle m.sampleByte
      rw [← dmc_tickApu] at hc
      have hi := ih hc hr
      rw [if_pos rfl, Nat.add_comm (rest.countP _), ← Nat.add_assoc]
      exact hi

/-! ### The sample from its start -/

/-- Set where the sample starts and how long it is, and switch the channels. -/
def startSample (m : Memory) (a l v : UInt8) : Memory :=
  ((m.write 0x4012 a).write 0x4013 l).write 0x4015 v

/-- The four writes that start a sample set the reader to its first byte, and clear the request. -/
theorem dmc_startSample (m : Memory) (a l v : UInt8) (hi : m.apu.dmc.active = false)
    (hv : v &&& 0x10 ≠ 0) :
    (m.startSample a l v).apu.dmc =
      (((m.apu.dmc.writeAddress a).writeLength l).restart).clearIrq := by
  have hv' : (v &&& 0x10 != 0) = true := bne_iff_ne.2 hv
  have ha : ((m.apu.dmc.writeAddress a).writeLength l).active = false := hi
  rw [startSample, dmc_write, dmc_write, dmc_write]
  show (((m.apu.dmc.writeAddress a).writeLength l).setEnabled (v &&& 0x10 != 0)).clearIrq = _
  rw [hv', Dmc.setEnabled, ha]
  rfl

/-- What the reader does in a run that goes on is what it did, and what it does then. -/
theorem sampleEvents_append (m : Memory) (l r : List Move) :
    m.sampleEvents (l ++ r) = m.sampleEvents l ++ (m.afterMoves l).sampleEvents r := by
  induction l generalizing m with
  | nil => rfl
  | cons x l ih =>
    rw [List.cons_append, sampleEvents, sampleEvents, ih, List.append_assoc]
    rfl

/-- Where the bytes of the sample have been read, the first in front. -/
def sampleAddresses (m : Memory) (moves : List Move) : List UInt16 :=
  (m.sampleEvents moves).filterMap Dmc.Event.address?

/-- A part of a run reads no more bytes than the whole. -/
theorem length_sampleAddresses_le (m : Memory) {l moves : List Move} (h : l <+: moves) :
    (m.sampleAddresses l).length ≤ (m.sampleAddresses moves).length := by
  obtain ⟨r, rfl⟩ := h
  rw [sampleAddresses, sampleAddresses, sampleEvents_append, List.filterMap_append,
    List.length_append]
  exact Nat.le_add_right _ _

/-- **How a sample is played.**  If the channel is idle when a sample is set and switched on, and is
left to itself from then on, whatever else happens, then the bytes that are read for it come from
the addresses of the sample in turn, from `$C000 + 64a` on, `$FFFF` being followed by `$8000`.

If the sample is not to be repeated there are `16l + 1` of them, and all of them are read in time;
until then the channel is active, and afterwards it is not, for good, and requests an interrupt if
it may.  If the sample is to be repeated it starts over after so many bytes; the channel is active
and requests no interrupt, and every number of bytes is read in time.

The bytes that have been read are those that the shifter has taken and the one that is in the
buffer; whenever one was read, the shifter had taken all those before; and each is taken in time. -/
theorem sample_is_played (m : Memory) (a l v : UInt8) (moves : List Move)
    (hi : m.apu.dmc.active = false) (he : m.apu.dmc.buffer = none) (hv : v &&& 0x10 ≠ 0)
    (hs : ∀ x ∈ moves, x.sparesSample = true) :
    let start := m.startSample a l v
    let dmc := (start.afterMoves moves).apu.dmc
    let cycles := moves.countP Move.isTickApu
    let addresses := start.sampleAddresses moves
    let log := start.sampleEvents moves
    let taken := log.filterMap Dmc.Event.taken?
    let length := 16 * l.toNat + 1
    (∀ i address, addresses[i]? = some address →
        address = Dmc.nextAddress^[i % length] (0xC000 + a.toUInt16 * 64)) ∧
      (m.apu.dmc.looping = false →
        addresses.length ≤ length ∧
          (start.apu.dmc.cyclesFor (16 * l.toNat) < cycles → addresses.length = length) ∧
          dmc.active = decide (addresses.length < length) ∧
          (∀ before, before <+: moves → (start.sampleAddresses before).length = length →
            dmc.active = false) ∧
          dmc.irq = (m.apu.dmc.irqEnabled && addresses.length == length)) ∧
      (m.apu.dmc.looping = true →
        (∀ k, start.apu.dmc.cyclesFor k < cycles → k < addresses.length) ∧
          dmc.active = true ∧ dmc.irq = false) ∧
      log.filterMap Dmc.Event.fetched? = taken ++ dmc.buffer.toList ∧
      (∀ before address w rest, log = before ++ .fetch address w :: rest →
        before.filterMap Dmc.Event.fetched? = before.filterMap Dmc.Event.taken?) ∧
      ∀ k < addresses.length, start.apu.dmc.cyclesFor (k + 1) < cycles → k < taken.length := by
  intro start dmc cycles addresses log taken length
  have hd : start.apu.dmc = _ := dmc_startSample m a l v hi hv
  have hstart : start.apu.dmc.reader.AtStart := by
    rw [hd]
    exact ⟨rfl, rfl, Nat.succ_pos _, rfl⟩
  have hb : start.apu.dmc.buffer = none := by
    rw [hd]
    exact he
  have hlen : start.apu.dmc.sampleLength = length := by
    rw [hd]
    exact congrArg (· + 1) (Nat.mul_comm ..)
  have haddr : start.apu.dmc.sampleAddress = 0xC000 + a.toUInt16 * 64 := by
    rw [hd]
    rfl
  have hloop : start.apu.dmc.looping = m.apu.dmc.looping := by
    rw [hd]
    rfl
  have hirq : start.apu.dmc.irqEnabled = m.apu.dmc.irqEnabled := by
    rw [hd]
    rfl
  -- along the run the channel plays from its start, and all that follows is read off this
  have hp : Dmc.Plays start.apu.dmc cycles log dmc := by
    have h := plays_after (Dmc.plays_nil hb) hs
    rwa [Nat.zero_add, List.nil_append] at h
  refine ⟨?_, ?_, ?_, hp.follows.bytes, hp.follows.inTurn, fun k => hp.lt_taken⟩
  · intro i address hf
    rw [← haddr, ← hlen]
    cases hl : start.apu.dmc.looping with
    | true => exact (hp.of_looping hstart hl).1 i address hf
    | false =>
      obtain ⟨h, hle, -⟩ := hp.of_not_looping hstart hl
      have hlt : i < start.apu.dmc.sampleLength :=
        Nat.lt_of_lt_of_le (List.getElem?_eq_some_iff.1 hf).1 hle
      rw [Nat.mod_eq_of_lt hlt]
      exact h i address hf
  · intro hl
    obtain ⟨-, hle, ha, hq⟩ := hp.of_not_looping hstart (hloop.trans hl)
    rw [hlen] at hle ha hq
    refine ⟨hle, ?_, ha, ?_, hirq ▸ hq⟩
    · -- were the reader still active after so long, it would have read all of them
      intro hc
      by_contra hn
      have hlt := hp.lt_fetched (ha.trans (decide_eq_true (Nat.lt_of_le_of_ne hle hn))) hc
      exact hn (Nat.le_antisymm hle hlt)
    · intro before hpre hn
      have hge := start.length_sampleAddresses_le hpre
      rw [hn] at hge
      exact ha.trans (decide_eq_false (Nat.not_lt.2 hge))
  · intro hl
    obtain ⟨-, ha, hq⟩ := hp.of_looping hstart (hloop.trans hl)
    exact ⟨fun k => hp.lt_fetched ha, ha, hq⟩

/-- A sample of 65 bytes that starts 64 bytes before the end of memory, with accesses of the
processor before it and after it: all of it is read, the last byte from `$8000`, and the interrupt
is requested. -/
theorem sample_is_played_across_end :
    let m := (Memory.ofBoard .blank Apu.defaultRate).write 0x4010 0x8F
    let moves := .write 0x4000 0xBF :: List.replicate 30000 .tickApu ++ [.read 0x4015]
    m.apu.dmc.active = false ∧ m.apu.dmc.buffer = none ∧ (0x10 : UInt8) &&& 0x10 ≠ 0 ∧
      (∀ x ∈ moves, x.sparesSample = true) ∧
      ((m.startSample 0xFF 0x04 0x10).sampleAddresses moves).length = 65 ∧
      ((m.startSample 0xFF 0x04 0x10).sampleAddresses moves)[64]? = some 0x8000 ∧
      ((m.startSample 0xFF 0x04 0x10).afterMoves moves).apu.dmc.active = false ∧
      ((m.startSample 0xFF 0x04 0x10).afterMoves moves).apu.dmc.irq = true := by
  intro m moves
  have hs : ∀ x ∈ moves, x.sparesSample = true := by
    intro x hx
    simp only [moves, List.mem_append, List.mem_cons, List.mem_replicate, List.not_mem_nil,
      or_false] at hx
    obtain (rfl | ⟨-, rfl⟩) | rfl := hx
    · decide
    · rfl
    · rfl
  have hn : moves.countP Move.isTickApu = 30000 := by
    simp only [moves, List.countP_append, List.countP_cons, List.countP_replicate]
    rfl
  have hc :
      (m.startSample 0xFF 0x04 0x10).apu.dmc.cyclesFor (16 * (0x04 : UInt8).toNat) < 30000 := by
    decide +kernel
  obtain ⟨ha, hl, -⟩ := sample_is_played m 0xFF 0x04 0x10 moves rfl rfl (by decide) hs
  obtain ⟨-, hend, hactive, -, hirq⟩ := hl rfl
  rw [hn] at hend
  have hlen : ((m.startSample 0xFF 0x04 0x10).sampleAddresses moves).length = 65 := hend hc
  refine ⟨rfl, rfl, by decide, hs, hlen, ?_, ?_, ?_⟩
  · -- sixty-four bytes from `0xFFC0` lead past the end of the address space
    have hi : 64 < ((m.startSample 0xFF 0x04 0x10).sampleAddresses moves).length := by
      rw [hlen]
      decide
    have hlast := List.getElem?_eq_getElem hi
    have hwrap : Dmc.nextAddress^[64] (0xC000 + 0xFF * 64) = 0x8000 := by decide +kernel
    exact hlast.trans (congrArg some ((ha 64 _ hlast).trans hwrap))
  · rw [hactive, hlen]
    decide
  · rw [hirq, hlen]
    decide

end Memory
end Famicom
