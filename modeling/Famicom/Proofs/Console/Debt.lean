/-
# How long the processor can be kept waiting

While the processor waits it is charged for more: for an NMI, and for bytes that are read for the
delta modulation channel.  So it is not clear that the waiting ends.  But how often it can be
charged in a number of cycles is limited, since the vertical blank starts once in a frame and the
channel has its pace; what the processor waits for and what it can be charged in so many cycles come
to no more than these cycles (`Console.owed`), and they go on doing so while it waits
(`Console.Paced.owed_cycle`).  When it has waited long enough it does one thing, which brings 525
cycles at the most, those of a transfer among them; and the reckoning begins anew
(`Console.Paced.cycle`).
-/

import Famicom.Proofs.Console.Reachable
import Famicom.Proofs.Console.Stolen

namespace Famicom

open Apu (Dmc shortestBit)

/-- Whether the vertical blank starts hangs on the raster. -/
theorem Ppu.Standing.startsVblank_congr {s t : Standing} (h : s.raster = t.raster) :
    s.startsVblank = t.startsVblank := by rw [startsVblank, startsVblank, h]

namespace Cpu

variable {β : Type} [Bus β]

/-- The base cost of an instruction is bounded, roughly: an access takes at most six cycles. -/
theorem Instruction.cycles_le (i : Instruction) : i.cycles ≤ 9 := by
  have hm : i.mode.accessCycles ≤ 6 := by cases i.mode <;> decide
  have hp := Bool.toNat_le i.mode.indexesAddress
  unfold cycles
  split <;> (try split) <;> omega

/-- Only a branch adds to its cost: one cycle if it is taken, and one if it leaves its page. -/
theorem extra_le (o : Operation) (decimalMode : Bool) (operand : Operand) (r : Registers) (b : β) :
    (o.execute decimalMode operand r b).1 ≤ 2 := by
  unfold Operation.execute
  cases o.effect with
  | branch taken =>
    dsimp only
    split
    · dsimp only
      split <;> decide
    · exact Nat.zero_le 2
  | store value | jump | call => cases operand <;> exact Nat.zero_le 2
  | _ => exact Nat.zero_le 2

/-- What an instruction can cost, roughly. -/
theorem step_le {p p' : Cpu} {b b' : β} {n : Nat} (h : p.step b = (.ok n, p', b')) : n ≤ 12 := by
  unfold step at h
  dsimp only at h
  split at h
  · cases h
  · rename_i i _
    have hi := i.cycles_le
    obtain ⟨hn, -⟩ := Prod.mk.inj h
    rw [← Except.ok.inj hn]
    exact Nat.add_le_add (Nat.add_le_add hi (Bool.toNat_le _)) (extra_le ..)

/-- A processor that has nothing to wait for has little to wait for after a cycle. -/
theorem remaining_tick_le {p : Cpu} (h : p.remaining = 0) (b : β) :
    (p.tick b).2.1.remaining ≤ 11 := by
  have hi : (p.irq b).2.1.remaining ≤ 7 := by
    unfold irq
    split
    · rw [h]
      decide
    · simp [interrupt, stall, h, entryCycles]
  unfold tick
  rw [if_neg (not_not_intro h)]
  split
  · show (p.irq b).2.1.remaining - 1 ≤ 11
    omega
  · obtain ⟨fault, hs⟩ | ⟨n, r, -, hs⟩ := step_cases p b
    · rw [hs]
      exact Nat.le_trans (Nat.le_of_eq h) (Nat.zero_le 11)
    · have hn := step_le hs
      rw [hs]
      dsimp only
      omega

end Cpu

namespace Memory

variable {m k : Memory}

/-- Whatever the processor writes, it does not touch the pace at which the channel is read for. -/
theorem pace_path {writes : List (UInt16 × UInt8)} (h : Bus.Path m writes k)
    (hr : shortestBit ≤ m.apu.dmc.rate) :
    shortestBit ≤ k.apu.dmc.rate ∧ ∀ n, k.apu.dmc.fetchesWithin n = m.apu.dmc.fetchesWithin n := by
  refine h.preserves (P := fun k => shortestBit ≤ k.apu.dmc.rate ∧
    ∀ n, k.apu.dmc.fetchesWithin n = m.apu.dmc.fetchesWithin n) ?_ ?_ ⟨hr, fun _ => rfl⟩
  · rintro k address ⟨hr, hf⟩
    have hd : (Bus.read k address).2.apu.dmc = k.apu.dmc := (spared_read k address).dmc
    rw [hd]
    exact ⟨hr, hf⟩
  · rintro k address v ⟨hr, hf⟩
    have hd : (Bus.write k address v).apu.dmc = k.apu.dmc.write address v := dmc_write k address v
    rw [hd]
    exact ⟨Dmc.shortestBit_le_rate_write hr address v,
      fun n => (Dmc.fetchesWithin_write _ address v n).trans (hf n)⟩

/-- **In its turn the processor starts one transfer at the most.** -/
theorem pendingStall_storePath (h : Cpu.StorePath m k) : k.pendingStall ≤ m.pendingStall + 514 := by
  obtain ⟨writes, h, hn⟩ := h
  have hs {address : UInt16} (ha : Bus.inStackPage address = true) (k : Memory) (v : UInt8) :
      (Bus.write k address v).pendingStall = k.pendingStall := by
    obtain ⟨ram, hw⟩ := write_of_inStackPage ha k v
    exact (congrArg pendingStall hw :)
  refine h.preserves_once (P := fun k => k.pendingStall = m.pendingStall)
    (Q := fun k => k.pendingStall ≤ m.pendingStall + 514) ?_ ?_ ?_ ?_ ?_ ?_ hn rfl
  · intro k hk
    exact Nat.le_add_right_of_le (Nat.le_of_eq hk)
  · intro k address hk
    exact (spared_read k address).pendingStall.trans hk
  · intro k address hk
    exact Nat.le_trans (Nat.le_of_eq (spared_read k address).pendingStall) hk
  · intro k address v ha hk
    exact (hs ha k v).trans hk
  · intro k address v ha hk
    exact Nat.le_trans (Nat.le_of_eq (hs ha k v)) hk
  · intro k address v hk
    have hw : (Bus.write k address v).pendingStall = _ := pendingStall_write k address v
    have ht := Bool.toNat_le (Bus.Access.write address v).startsTransfer
    rw [hw, hk]
    omega

end Memory

namespace Console

open Memory (Logged)
open Ppu (Standing dotsPerFrame)

variable {c d : Console} {n k : Nat}

/-- In the hardware's share of a cycle the channel goes one cycle on. -/
theorem dmc_tickHardware (c : Console) :
    ∃ byteAt, c.tickHardware.memory.apu.dmc = c.memory.apu.dmc.cycle byteAt := by
  have hd := c.dmc_logNmi.1
  rw [logHardware_eq, logHardware]
  dsimp only
  rw [Logged.memory_takeStall, (takeStall_eq _).2.2]
  generalize c.logNmi.2 = l at hd ⊢
  refine ⟨l.memory.tickPpu.tickPpu.sampleByte, ?_⟩
  rw [← hd]
  exact Memory.dmc_tickApu l.memory.tickPpu.tickPpu

/-- **A cycle uses up what can be read in it**, whatever the processor does. -/
theorem pace_cycle (h : shortestBit ≤ c.memory.apu.dmc.rate) :
    shortestBit ≤ c.cycle.2.memory.apu.dmc.rate ∧
      ∀ n, c.memory.apu.dmc.fetches.toNat + c.cycle.2.memory.apu.dmc.fetchesWithin n ≤
        c.memory.apu.dmc.fetchesWithin (n + 1) := by
  obtain ⟨byteAt, hd⟩ := c.dmc_tickHardware
  obtain ⟨writes, hk, -⟩ := Cpu.storePath_tick c.tickHardware.cpu c.tickHardware.memory
  rw [← memory_cycle_eq] at hk
  obtain ⟨hr, hf⟩ := Memory.pace_path hk (by rwa [hd, Dmc.rate_cycle])
  refine ⟨hr, fun n => ?_⟩
  rw [hf, hd]
  exact Dmc.fetchesWithin_cycle h byteAt n

/-- The hardware's share of a cycle adds to what the processor waits for what it is charged. -/
theorem remaining_tickHardware (c : Console) :
    c.tickHardware.cpu.remaining = c.cpu.remaining + c.charge := by
  rw [logHardware_eq]
  exact c.remaining_logHardware

/-- **What a cycle leaves**: if the processor has something to wait for, it waits; if not, it does
one thing. -/
theorem cycle_waits_or_acts (c : Console) :
    (c.cpu.remaining + c.charge ≠ 0 ∧
        c.cycle.2.cpu.remaining + 1 = c.cpu.remaining + c.charge ∧
        c.cycle.2.memory = c.tickHardware.memory) ∨
      (c.cpu.remaining + c.charge = 0 ∧ c.cycle.2.cpu.remaining ≤ 11 ∧
        c.cycle.2.memory.pendingStall ≤ 514) := by
  have hr := c.remaining_tickHardware
  have hp := c.pendingStall_tickHardware
  rw [cpu_cycle_eq, memory_cycle_eq]
  generalize c.tickHardware = d at hr hp ⊢
  by_cases hw : d.cpu.remaining = 0
  · have hs := Memory.pendingStall_storePath (Cpu.storePath_tick d.cpu d.memory)
    rw [hp] at hs
    exact .inr ⟨by omega, Cpu.remaining_tick_le hw _, hs⟩
  · rw [Cpu.tick, if_pos hw]
    refine .inl ⟨by omega, ?_, rfl⟩
    dsimp only
    omega

/-! ### How many NMIs a time can bring

A processor that waits writes to no register, so the only requests that come meanwhile are those of
the vertical blank.  It starts once in 89342 dots: within 600 cycles that is one NMI, besides the
one that is waiting already. -/

/-- After the first dot no request for an NMI waits. -/
theorem nmiPending_logNmi (c : Console) : c.logNmi.2.standing.nmiPending = false := by
  obtain ⟨hp, h⟩ | ⟨-, r, k, hk, h⟩ := c.logNmi_cases
  · rw [h]
    exact hp
  · obtain ⟨hs, -⟩ := Logged.seen_stackPath hk
    rw [h, hs.nmiPending]
    exact congrArg Standing.nmiPending
      (Logged.standing_takeNmi ({ memory := c.memory } : Logged).tickPpu)

/-- A request that waits after the three dots has come in one of the last two. -/
theorem startsVblank_of_nmiPending (h : c.tickHardware.memory.ppu.nmiPending = true) :
    c.standing.tick.startsVblank = true ∨ c.standing.tick.tick.startsVblank = true := by
  have h₀ := c.nmiPending_logNmi
  obtain ⟨hs, hm⟩ := c.scanned_logNmi
  have h₁ := hs.raster
  have h₂ := (hs.tickPpu hm).raster
  rw [logHardware_eq, logHardware] at h
  dsimp only at h
  generalize c.logNmi.2 = l at h h₀ h₁ h₂
  have hk : l.tickPpu.tickPpu.tickApu.tickBoard.takeStall.2.standing.nmiPending = true := h
  have ha : l.tickPpu.tickPpu.standing.Seen l.tickPpu.tickPpu.tickApu.standing :=
    Memory.seen_tickApu l.tickPpu.tickPpu.memory
  have hb : l.tickPpu.tickPpu.tickApu.tickBoard.standing = l.tickPpu.tickPpu.tickApu.standing := rfl
  rw [Logged.standing_takeStall, hb, ha.nmiPending, Logged.standing_tickPpu] at hk
  rw [← Standing.startsVblank_congr h₁, ← Standing.startsVblank_congr h₂]
  cases hp : l.tickPpu.standing.nmiPending with
  | false => exact .inr (Standing.nmiPending_tick hp hk).1
  | true =>
    rw [Logged.standing_tickPpu] at hp
    exact .inl (Standing.nmiPending_tick h₀ hp).1

/-- **NMIs come from the vertical blank**: those that are entered in a cycle and the one that is
requested in it. -/
theorem InFrame.nmi_cycle (h : c.InFrame) :
    c.entersNmi.toNat + c.tickHardware.memory.ppu.nmiPending.toNat ≤
      c.memory.ppu.nmiPending.toNat + (c.eventsOf .cycle).count .blankStart := by
  have h₁ : c.standing.tick.raster.InFrame := Standing.inFrame_tick h
  have h₂ : c.standing.tick.tick.raster.InFrame := Standing.inFrame_tick h₁
  -- the first dot is before the NMI is looked for, the other two after it
  have he : c.entersNmi = (c.memory.ppu.nmiPending ||
      c.standing.startsVblank && c.memory.ppu.control.nmiEnabled) :=
    congrArg Standing.nmiPending (Ppu.standing_tick c.memory.ppu c.memory.board)
  have hn : c.entersNmi.toNat ≤ c.memory.ppu.nmiPending.toNat + c.standing.startsVblank.toNat := by
    rw [he]
    cases c.memory.ppu.nmiPending <;> cases c.standing.startsVblank <;>
      cases c.memory.ppu.control.nmiEnabled <;> decide
  have hp : c.tickHardware.memory.ppu.nmiPending.toNat ≤
      c.standing.tick.startsVblank.toNat + c.standing.tick.tick.startsVblank.toNat := by
    cases h : c.tickHardware.memory.ppu.nmiPending with
    | false => exact Nat.zero_le _
    | true =>
      rcases startsVblank_of_nmiPending h with hs | hs
      · rw [hs]
        exact Nat.le_add_right 1 _
      · rw [hs]
        exact Nat.le_add_left 1 _
  have hb (m : Nat) : (if (m == 1) = true then 1 else 0) = (m == 1).toNat := by cases m == 1 <;> rfl
  rw [Standing.startsVblank_eq h] at hn
  rw [Standing.startsVblank_eq h₁, Standing.startsVblank_eq h₂] at hp
  rw [h.count_blankStart]
  simp only [List.count_cons, List.count_nil, untilBlank, hb]
  omega

/-- The NMIs that can be entered in so many cycles, if the processor does not request any: the one
that waits, and that of the vertical blank if it is near enough. -/
def nmisWithin (c : Console) (n : Nat) : Nat :=
  c.memory.ppu.nmiPending.toNat + if c.untilBlank ≤ 4 * n then 1 else 0

/-- Two NMIs at most: the one that waits and the one of the vertical blank. -/
theorem nmisWithin_le (c : Console) (n : Nat) : c.nmisWithin n ≤ 2 := by
  have := Bool.toNat_le c.memory.ppu.nmiPending
  unfold nmisWithin
  split <;> omega

/-- A cycle in which the processor waits uses up the NMIs that can be entered in it. -/
theorem InFrame.nmisWithin_cycle (h : c.InFrame) (hm : c.cycle.2.memory = c.tickHardware.memory)
    (hn : n ≤ 600) : c.entersNmi.toNat + c.cycle.2.nmisWithin n ≤ c.nmisWithin (n + 1) := by
  have hf : dotsPerFrame = 89342 := rfl
  have hc := h.nmi_cycle
  rw [← hm] at hc
  unfold nmisWithin
  obtain ⟨-, hb, -, hu⟩ | ⟨hl, hb, -, hu⟩ := h.cycle_cases
  · split <;> split <;> omega
  · split <;> split <;> omega

/-! ### The debt and its bound

What is owed at a time is bounded with a view to what may still come: the bound for the next `n`
cycles falls as they pass, and an NMI or a fetch that comes has been counted before. -/

/-- What the processor waits for, what is pending, and what it can be charged besides in so many
cycles. -/
def owed (c : Console) (n : Nat) : Nat :=
  c.cpu.remaining + c.memory.pendingStall + 7 * c.nmisWithin n +
    4 * c.memory.apu.dmc.fetchesWithin n

/-- In 600 cycles two NMIs and three fetches can be added to what is owed: `7 * 2 + 4 * 3 = 26`
cycles. -/
theorem owed_600_le (c : Console) :
    c.owed 600 ≤ c.cpu.remaining + c.memory.pendingStall + 26 := by
  have hn := c.nmisWithin_le 600
  have hf : c.memory.apu.dmc.fetchesWithin 600 ≤ 3 := by
    have := Bool.toNat_le c.memory.apu.dmc.buffer.isNone
    unfold Dmc.fetchesWithin
    omega
  unfold owed
  omega

/-- **The processor keeps pace with its debts**: in some number of cycles it will have waited for
all of them, those included that are added meanwhile. -/
structure Paced (c : Console) : Prop where
  inFrame : c.InFrame
  rate : shortestBit ≤ c.memory.apu.dmc.rate
  owed : ∃ n ≤ 600, c.owed n ≤ n

/-- **While the processor waits**, what it owes in the cycles that are left does not exceed them. -/
theorem Paced.owed_cycle (h : c.Paced) (hn : n < 600) (ho : c.owed (n + 1) ≤ n + 1)
    (hw : c.cpu.remaining + c.charge ≠ 0) : c.cycle.2.owed n ≤ n := by
  obtain ⟨-, hr, hm⟩ | ⟨hz, -⟩ := c.cycle_waits_or_acts
  · have hi := h.inFrame.nmisWithin_cycle hm (Nat.le_of_lt hn)
    have hf := (pace_cycle h.rate).2 n
    have hs : c.cycle.2.memory.pendingStall = 0 := by rw [hm, pendingStall_tickHardware]
    have hc := c.stolen_eq
    unfold Console.owed at ho ⊢
    unfold charge at hr
    omega
  · exact absurd hz hw

/-- **A cycle keeps the pace.** -/
theorem Paced.cycle (h : c.Paced) : c.cycle.2.Paced where
  inFrame := h.inFrame.cycle
  rate := (pace_cycle h.rate).1
  owed := by
    have h600 := c.cycle.2.owed_600_le
    obtain ⟨n, hn, ho⟩ := h.owed
    by_cases hw : c.cpu.remaining + c.charge = 0
    · -- the processor does something, and the reckoning begins anew
      obtain ⟨hw', -⟩ | ⟨-, hr, hs⟩ := c.cycle_waits_or_acts
      · exact absurd hw hw'
      · exact ⟨600, Nat.le_refl _, by omega⟩
    · cases n with
      | succ n => exact ⟨n, Nat.le_of_succ_le hn, h.owed_cycle hn ho hw⟩
      | zero =>
        -- nothing was owed, and little can have been charged in this cycle
        obtain ⟨-, hr, hm⟩ | ⟨hz, -⟩ := c.cycle_waits_or_acts
        · have hs : c.cycle.2.memory.pendingStall = 0 := by rw [hm, pendingStall_tickHardware]
          have hc := c.stolen_eq
          have he := Bool.toNat_le c.entersNmi
          have hf := Bool.toNat_le c.memory.apu.dmc.fetches
          unfold Console.owed at ho
          unfold charge at hr
          exact ⟨600, Nat.le_refl _, by omega⟩
        · exact absurd hz hw

/-- Keeping pace is an invariant of cycles, and counting a frame does not touch it. -/
theorem kept_paced : Kept Paced where
  cycle h := h.cycle
  finishFrame h := ⟨h.inFrame, h.rate, h.owed⟩

/-- After a reset the processor waits for its entry alone, so it keeps pace. -/
theorem paced_reset (c : Console) : c.reset.Paced where
  inFrame := inFrame_reset c
  rate := by
    show shortestBit ≤ 428
    decide
  owed := by
    have h := c.reset.owed_600_le
    have hr : c.reset.cpu.remaining = 7 := rfl
    have hs : c.reset.memory.pendingStall = 0 := rfl
    exact ⟨600, Nat.le_refl _, by omega⟩

/-- While the processor waits the reckoning of the beginning holds. -/
theorem Paced.owed_after (h : c.Paced) {j : Nat} (hn : n ≤ 600) (ho : c.owed n ≤ n) (hj : j ≤ n)
    (hw : ∀ i < j, (c.after (cycles i)).cpuWaits = true) :
    (c.after (cycles j)).Paced ∧ (c.after (cycles j)).owed (n - j) ≤ n - j := by
  induction j with
  | zero => exact ⟨h, ho⟩
  | succ j ih =>
    obtain ⟨hp, ho'⟩ := ih (Nat.le_of_succ_le hj) fun i hi => hw i (Nat.lt_succ_of_lt hi)
    have hr : (c.after (cycles j)).cpu.remaining ≠ 0 := bne_iff_ne.1 (hw j (Nat.lt_succ_self j))
    have hs : n - j = n - (j + 1) + 1 := by omega
    rw [hs] at ho'
    rw [after_cycles_succ']
    exact ⟨hp.cycle, hp.owed_cycle (by omega) ho' (by omega)⟩

/-! ### Runs that end in time -/

/-- A run that has taken no more cycles than given, has not met its bound, and keeps the pace. -/
structure Run.InTime (r : Run) (n : Nat) : Prop where
  cycles : r.cycles ≤ n
  fault : r.fault? ≠ some .outOfCycles
  paced : r.console.Paced

/-- **Waiting for the processor ends in time.** -/
theorem Paced.inTime_cycleWhile (h : c.Paced) {bound : Nat} (hb : 600 < bound) (m : Nat) :
    (cycleWhile cpuWaits bound m c).InTime (m + 600) := by
  obtain ⟨k, hn, -, hj, he⟩ := cycleWhile_cases cpuWaits bound m c
  obtain ⟨n, hn600, ho⟩ := h.owed
  have hk : k ≤ n := by
    by_contra hk
    have hlt : n < k := Nat.lt_of_not_le hk
    obtain ⟨-, ho'⟩ := h.owed_after hn600 ho (Nat.le_refl n) fun i hi => hj i (Nat.lt_trans hi hlt)
    have hr : (c.after (Console.cycles n)).cpu.remaining ≠ 0 := bne_iff_ne.1 (hj n hlt)
    rw [Nat.sub_self, Console.owed] at ho'
    omega
  refine ⟨by omega, ?_, kept_paced.runsTo (runsTo_cycleWhile ..) h⟩
  generalize (cycleWhile cpuWaits bound m c).fault? = fault? at he ⊢
  cases he with
  | done _ => exact nofun
  | outOfCycles _ => exact absurd hk (by omega)
  | stopped _ => exact nofun

/-- One cycle more may end a run one cycle later. -/
theorem Run.InTime.cycle {r : Run} (h : r.InTime n) : r.cycle.InTime (n + 1) := by
  have hp := kept_paced.runsTo (RunsTo.cycle (c := r.console) (r := r) ⟨0, rfl⟩) h.paced
  obtain ⟨d, m, _ | f⟩ := r
  · have hm := Nat.succ_le_succ h.cycles
    unfold Run.cycle at hp ⊢
    rcases hc : d.cycle with ⟨f | u, d'⟩
    · simp only [hc] at hp ⊢
      exact ⟨hm, nofun, hp⟩
    · simp only [hc] at hp ⊢
      exact ⟨hm, nofun, hp⟩
  · exact ⟨Nat.le_succ_of_le h.cycles, h.fault, h.paced⟩

/-- A loop that waits for the processor adds at most 600 cycles, so a bound above that is not
met. -/
theorem Run.InTime.andWhile {r : Run} (h : r.InTime n) {bound : Nat} (hb : 600 < bound) :
    (r.andWhile cpuWaits bound).InTime (n + 600) := by
  obtain ⟨d, m, _ | f⟩ := r
  · obtain ⟨hc, hf, hp⟩ := h.paced.inTime_cycleWhile hb m
    exact ⟨Nat.le_trans hc (Nat.add_le_add_right h.cycles 600), hf, hp⟩
  · exact ⟨Nat.le_add_right_of_le h.cycles, h.fault, h.paced⟩

/-- **An instruction is finished in time.** -/
theorem Paced.inTime_stepInstruction (h : c.Paced) : c.stepInstruction.InTime 1201 := by
  have hb : 600 < c.instructionBound := by
    unfold instructionBound
    omega
  exact ((h.inTime_cycleWhile hb 0).cycle).andWhile hb

/-! ### What the host may do in between -/

/-- A read by the host adds to no debt. -/
theorem owed_read (c : Console) (address : UInt16) (n : Nat) :
    (c.call (.read address)).owed n = c.owed n := by
  have hs := Memory.seen_read c.memory address
  have hp : (c.call (.read address)).memory.ppu.nmiPending = c.memory.ppu.nmiPending :=
    hs.nmiPending
  have hu : (c.call (.read address)).untilBlank = c.untilBlank :=
    congrArg Ppu.Raster.untilBlank hs.raster
  have hm : (c.call (.read address)).memory.pendingStall = c.memory.pendingStall :=
    (Memory.spared_read c.memory address).pendingStall
  have hd : (c.call (.read address)).memory.apu.dmc = c.memory.apu.dmc :=
    (Memory.spared_read c.memory address).dmc
  have hr : (c.call (.read address)).cpu = c.cpu := rfl
  rw [Console.owed, Console.owed, nmisWithin, nmisWithin, hp, hu, hm, hd, hr]

/-- **A call keeps the pace**, unless the host writes. -/
theorem Paced.call (h : c.Paced) {x : Call} (hx : x.isWrite = false) : (c.call x).Paced := by
  cases x with
  | cycle => exact h.cycle
  | read address =>
    obtain ⟨n, hn, ho⟩ := h.owed
    refine ⟨h.inFrame.call _, ?_, n, hn, ?_⟩
    · have hd : (c.call (.read address)).memory.apu.dmc = c.memory.apu.dmc :=
        (Memory.spared_read c.memory address).dmc
      rw [hd]
      exact h.rate
    · rwa [owed_read]
  | write address v => cases hx
  | hold buttons => exact ⟨h.inFrame, h.rate, h.owed⟩
  | clearSamples => exact ⟨h.inFrame, h.rate, h.owed⟩

/-- A stretch of a run, whichever way the console is run: it leads from one console to another in so
many cycles, in which so many bytes are read for the delta modulation channel. -/
inductive Stretch (c : Console) : Nat → Nat → Console → Prop where
  | nil : Stretch c 0 0 c
  | call {n k : Nat} {d : Console} (x : Call) (hx : x.isWrite = false) (h : Stretch c n k d) :
    Stretch c (n + x.isCycle.toNat) (k + (d.sampleFetchOf x).length) (d.call x)
  | finishFrame {n k : Nat} {d : Console} (h : Stretch c n k d) : Stretch c n k d.finishFrame

/-- **A stretch keeps the pace.** -/
theorem Stretch.paced (h : Stretch c n k d) (hc : c.Paced) : d.Paced := by
  induction h with
  | nil => exact hc
  | call x hx _ ih => exact ih.call hx
  | finishFrame _ ih => exact kept_paced.finishFrame ih

/-- **How many bytes are read in a stretch** is limited by its cycles. -/
theorem Stretch.fetchesWithin_le (h : Stretch c n k d) (hc : c.Paced) (m : Nat) :
    k + d.memory.apu.dmc.fetchesWithin m ≤ c.memory.apu.dmc.fetchesWithin (n + m) := by
  induction h generalizing m with
  | nil => exact Nat.le_of_eq (by rw [Nat.zero_add, Nat.zero_add])
  | call x hx h ih =>
    rename_i n k d
    cases x with
    | cycle =>
      have hm := ih (m + 1)
      have hf := (pace_cycle (h.paced hc).rate).2 m
      have hn : n + Call.cycle.isCycle.toNat + m = n + (m + 1) := Nat.add_right_comm n 1 m
      have hd : d.call .cycle = d.cycle.2 := rfl
      rw [length_sampleFetchOf, hn, hd]
      omega
    | read address =>
      have hd : (d.call (.read address)).memory.apu.dmc = d.memory.apu.dmc :=
        (Memory.spared_read d.memory address).dmc
      rw [hd]
      exact ih m
    | write address v => cases hx
    | hold buttons => exact ih m
    | clearSamples => exact ih m
  | finishFrame _ ih => exact ih m

/-- Whatever a loop does, it has been a stretch of cycles. -/
theorem kept_stretch (c : Console) : Kept fun d => ∃ n k, Stretch c n k d where
  cycle := by
    rintro d ⟨n, k, h⟩
    exact ⟨_, _, h.call .cycle rfl⟩
  finishFrame := by
    rintro d ⟨n, k, h⟩
    exact ⟨n, k, h.finishFrame⟩

/-- The consoles that can be come to from a reset if the host neither puts another cartridge in nor
writes nor touches the processor. -/
inductive Played : Console → Prop where
  | reset (c : Console) : Played c.reset
  | call {c : Console} (x : Call) (hx : x.isWrite = false) (h : Played c) : Played (c.call x)
  | stepInstruction {c : Console} (h : Played c) : Played c.stepInstruction.console
  | runFrame {c : Console} (h : Played c) : Played c.runFrame.console
  | runFrames {c : Console} (n : Nat) (h : Played c) : Played (c.runFrames n).console

/-- Whichever way the console is run, it is a stretch from a reset. -/
theorem Played.stretch (h : d.Played) : ∃ c n k, Stretch (Console.reset c) n k d := by
  induction h with
  | reset c => exact ⟨c, 0, 0, .nil⟩
  | call x hx _ ih =>
    obtain ⟨c, n, k, h⟩ := ih
    exact ⟨c, _, _, h.call x hx⟩
  | stepInstruction _ ih =>
    obtain ⟨c, h⟩ := ih
    exact ⟨c, (kept_stretch c.reset).runsTo (runsTo_stepInstruction _) h⟩
  | runFrame _ ih =>
    obtain ⟨c, h⟩ := ih
    exact ⟨c, (kept_stretch c.reset).runFrame h⟩
  | runFrames n _ ih =>
    obtain ⟨c, h⟩ := ih
    exact ⟨c, (kept_stretch c.reset).runFramesFrom h 0 n⟩

/-- **A console that is only played keeps pace**, being a stretch of cycles away from a reset. -/
theorem Played.paced (h : d.Played) : d.Paced := by
  obtain ⟨c, n, k, h⟩ := h.stretch
  exact h.paced (paced_reset c)

/-- **What the processor owes stays bounded.**  In every console that can be come to from a reset,
if the host does not write, the processor waits for no more than 600 cycles; in any 432 cycles from
there on, however they are run, no more than two bytes are read for the delta modulation channel;
and a run of one more instruction ends, well or with a fault of the processor, after 1201 cycles at
the most: the bound of the loop is not met. -/
theorem debt_is_bounded (c : Console) (h : c.Played) :
    c.cpu.remaining ≤ 600 ∧
      (∀ n k d, Stretch c n k d → n ≤ 432 → k ≤ 2) ∧
      c.stepInstruction.cycles ≤ 1201 ∧ c.stepInstruction.fault? ≠ some .outOfCycles := by
  have hp := h.paced
  refine ⟨?_, ?_, hp.inTime_stepInstruction.cycles, hp.inTime_stepInstruction.fault⟩
  · obtain ⟨n, hn, ho⟩ := hp.owed
    unfold owed at ho
    omega
  · intro n k d hs hn
    have hk := hs.fetchesWithin_le hp (432 - n)
    rw [Nat.add_sub_cancel' hn] at hk
    exact Nat.le_trans (Nat.le_of_add_right_le hk) (Dmc.fetchesWithin_432_le _)

/-- A console with a blank cartridge after a frame and an instruction. -/
theorem debt_is_bounded_blank :
    let c := ((ofBoard .blank {}).runFrame.console.call (.hold 0x01)).stepInstruction.console
    c.Played ∧ c.cpu.remaining ≤ 600 ∧ c.stepInstruction.fault? ≠ some .outOfCycles := by
  intro c
  have h : c.Played := .stepInstruction (.call (.hold 0x01) rfl (.runFrame (.reset _)))
  obtain ⟨hr, -, -, hf⟩ := debt_is_bounded c h
  exact ⟨h, hr, hf⟩

end Console
end Famicom
