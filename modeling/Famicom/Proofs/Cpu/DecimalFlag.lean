/-
# The D flag without decimal arithmetic

Without decimal arithmetic the D flag is carried along and means nothing.  Let two processors
differ in it only (`Cpu.withDecimal`), and let the same calls of `step` be made on both.  An
instruction finds its operand without looking at D (`Cpu.exists_step_withDecimal`), and of the
operations only two let D out of the status: `PHP` and `BRK`, which push it.  Each of the others
leaves the same registers and the same bus but for D (`Cpu.Operation.execute_withDecimal`), so by
induction do the calls of a whole run (`Cpu.calls_withDecimal`).

`PHP` and `BRK` push one byte each that is not the same, and that in one bit.  After it `BRK` still
reads its vector, and what a bus answers may depend on what has been written; so of their registers
it is said that they are the same if these answers are.
-/

import Famicom.Proofs.Cpu.Footprint

namespace Famicom
namespace Cpu

open Bus (Access Recorded)

/-- The registers with the D flag as given. -/
def Registers.withDecimal (r : Registers) (d : Bool) : Registers :=
  { r with status := { r.status with decimal := d } }

/-- The processor with the D flag as given. -/
def withDecimal (c : Cpu) (d : Bool) : Cpu := { c with registers := c.registers.withDecimal d }

/-- The operations that push the status. -/
def Operation.pushStatus : List Operation := [php, brk]

variable {β : Type} [Bus β] {c : Cpu} {bus : β}

/-- The processor stands before an instruction that pushes the status. -/
def PushesStatus (c : Cpu) (bus : β) : Prop :=
  ∃ i ∈ decode (Bus.read bus c.registers.pc).1, i.operation ∈ Operation.pushStatus
deriving Decidable

/-- What a call of `step` shows. -/
structure Call where
  answer : Except Fault Nat
  accesses : List Access

/-- A call of `step`. -/
def call (c : Cpu) (bus : β) : Call where
  answer := (c.step bus).1
  accesses := c.accesses bus

/-- What so many calls of `step` show, and what the processor and the bus are after them.  A call
that fails does not end the run. -/
def calls (c : Cpu) (bus : β) : Nat → List Call × Cpu × β
  | 0 => ([], c, bus)
  | k + 1 =>
    let (shown, c, bus) := c.calls bus k
    (shown ++ [c.call bus], (c.step bus).2)

/-- Of so many calls none pushes the status. -/
def Quiet (c : Cpu) (bus : β) (k : Nat) : Prop :=
  ∀ i < k, ¬ (c.calls bus i).2.1.PushesStatus (c.calls bus i).2.2

namespace Operation

/-! ### One operation, with and without the flag -/

variable {o : Operation} {operand : Operand} {r : Registers} {d : Bool}

/-- A branch whose flag is not D. -/
theorem branch_withDecimal {taken : Status → Bool} (ho : o.effect = .branch taken)
    (same : taken (r.withDecimal d).status = taken r.status) :
    o.execute false operand (r.withDecimal d) bus =
      ((o.execute false operand r bus).1, (o.execute false operand r bus).2.1.withDecimal d,
        (o.execute false operand r bus).2.2) := by
  simp only [execute, ho, same]
  split
  · cases operand <;> rfl
  · rfl

/-- **An operation does not look at D**, without decimal arithmetic, unless it pushes the status. -/
theorem execute_withDecimal (ho : o ∉ pushStatus) (operand : Operand) (r : Registers) (d : Bool)
    (bus : β) : ∃ d', o.execute false operand (r.withDecimal d) bus =
      ((o.execute false operand r bus).1, (o.execute false operand r bus).2.1.withDecimal d',
        (o.execute false operand r bus).2.2) := by
  cases o with
  | php | brk => exact absurd (by decide) ho
  | cld => exact ⟨false, rfl⟩
  | sed => exact ⟨true, rfl⟩
  -- what is pulled has a D flag of its own
  | plp | rti => exact ⟨_, rfl⟩
  | bcc | bcs | bne | beq | bpl | bmi | bvc | bvs => exact ⟨d, branch_withDecimal rfl rfl⟩
  | _ => exact ⟨d, by cases operand <;> rfl⟩

/-- `PHP` pushes the status. -/
theorem execute_php (decimalMode : Bool) (operand : Operand) (r : Registers) (bus : β) :
    php.execute decimalMode operand r bus =
      (0, { r with sp := r.sp - 1 }, Bus.write bus (stackCell r.sp) (r.status.toStack true)) := rfl

/-- `BRK` pushes the status last, and then reads its vector. -/
theorem execute_brk (decimalMode : Bool) (operand : Operand) (r : Registers) (bus : β) :
    let pushed :=
      Bus.write (pushWord r bus (r.pc + 1)).2 (stackCell (r.sp - 1 - 1)) (r.status.toStack true)
    brk.execute decimalMode operand r bus =
      (0, { r with
        sp := r.sp - 1 - 1 - 1
        pc := (Bus.readWord pushed irqVector).1
        status := { r.status with interrupt := true } }, (Bus.readWord pushed irqVector).2) := rfl

end Operation

/-- **Finding the operand does not look at D.** -/
theorem exists_step_withDecimal (plain : c.decimalMode = false) {i : Instruction}
    (h : decode (Bus.read bus c.registers.pc).1 = some i) :
    ∃ cost operand pc, ∃ before : β, ∀ d, (c.withDecimal d).step bus =
      let e := i.operation.execute false operand ({ c.registers with pc }.withDecimal d) before
      (.ok (cost + e.1), { c with registers := e.2.1, total := c.total + (cost + e.1) },
        e.2.2) := by
  let located := i.mode.locate (c.registers.pc + 1) c.registers.x c.registers.y
    (Bus.read bus c.registers.pc).2
  refine ⟨i.cycles + (located.1.leftPage && i.paysForPage).toNat, located.1.operand,
    c.registers.pc + 1 + i.mode.operandBytes, located.2, fun d => ?_⟩
  unfold step
  simp only [withDecimal, Registers.withDecimal, h, plain]
  rfl

/-- **A call that does not push the status** does not look at D. -/
theorem step_withDecimal (plain : c.decimalMode = false) (h : ¬ c.PushesStatus bus) (d : Bool) :
    ∃ d', (c.withDecimal d).step bus =
      ((c.step bus).1, (c.step bus).2.1.withDecimal d', (c.step bus).2.2) := by
  cases hd : decode (Bus.read bus c.registers.pc).1 with
  | none =>
    refine ⟨d, ?_⟩
    unfold step
    simp only [withDecimal, Registers.withDecimal, hd]
  | some i =>
    obtain ⟨cost, operand, pc, before, hs⟩ := exists_step_withDecimal plain hd
    have ho : i.operation ∉ Operation.pushStatus := fun ho => h ⟨i, hd, ho⟩
    obtain ⟨d', he⟩ := Operation.execute_withDecimal ho operand { c.registers with pc } d before
    have own : c.step bus = _ := hs c.registers.status.decimal
    refine ⟨d', ?_⟩
    rw [hs, he, own]
    rfl

/-- The accesses of a call that does not push the status. -/
theorem accesses_withDecimal (plain : c.decimalMode = false) (h : ¬ c.PushesStatus bus) (d : Bool) :
    (c.withDecimal d).accesses bus = c.accesses bus := by
  have h' : ¬ c.PushesStatus ({ bus } : Recorded β) := h
  obtain ⟨_, hs⟩ := step_withDecimal plain h' d
  rw [accesses, hs, accesses]

-- unfolding a run is not to carry its instructions out
attribute [local irreducible] step

/-- Whether the processor obeys D is settled once and for all. -/
theorem step_decimalMode (c : Cpu) (bus : β) : (c.step bus).2.1.decimalMode = c.decimalMode := by
  obtain ⟨_, h⟩ | ⟨_, _, _, h⟩ := step_cases c bus <;> rw [h]

theorem calls_decimalMode (c : Cpu) (bus : β) (k : Nat) :
    (c.calls bus k).2.1.decimalMode = c.decimalMode := by
  induction k with
  | zero => rfl
  | succ k ih => exact (step_decimalMode (c.calls bus k).2.1 _).trans ih

/-! ### Runs, and the call that shows the flag

A run without the two operations that push the status goes the same with the flag and without it.
The call after it, if it pushes the status, pushes a byte in which bit 3 is the flag. -/

/-- **Runs do not look at D.** -/
theorem calls_withDecimal (plain : c.decimalMode = false) (d : Bool) (k : Nat)
    (quiet : c.Quiet bus k) :
    ∃ d', (c.withDecimal d).calls bus k =
      ((c.calls bus k).1, (c.calls bus k).2.1.withDecimal d', (c.calls bus k).2.2) := by
  induction k with
  | zero => exact ⟨d, rfl⟩
  | succ k ih =>
    obtain ⟨d₁, hk⟩ := ih fun i hi => quiet i (Nat.lt_succ_of_lt hi)
    have plain' := (calls_decimalMode c bus k).trans plain
    obtain ⟨d₂, hs⟩ := step_withDecimal plain' (quiet k (Nat.lt_succ_self k)) d₁
    have ha := accesses_withDecimal plain' (quiet k (Nat.lt_succ_self k)) d₁
    refine ⟨d₂, ?_⟩
    simp only [calls, call, hk, hs, ha]

/-- The record changes neither the answer nor the processor. -/
theorem step_recorded (c : Cpu) (bus : β) :
    (c.step ({ bus } : Recorded β)).1 = (c.step bus).1 ∧
      (c.step ({ bus } : Recorded β)).2.1 = (c.step bus).2.1 := by
  obtain ⟨e, d, b, bus', hr, hb, -⟩ :=
    step_alike Recorded.simulation (rfl : ({ bus } : Recorded β).Records bus) c
  rw [hr, hb]
  exact ⟨rfl, rfl⟩

/-- Reading a word on a bus with a record. -/
theorem exists_readWord_recorded (b : Recorded β) (address : UInt16) :
    ∃ l h, (Bus.readWord b address).1 = Word.ofBytes l h ∧
      (Bus.readWord b address).2.accesses =
        .read (address + 1) h :: .read address l :: b.accesses :=
  ⟨_, _, rfl, rfl⟩

/-- Of the byte that is pushed D settles one bit. -/
theorem toStack_withDecimal (r : Registers) (d b : Bool) :
    (r.withDecimal d).status.toStack b &&& 0xF7 = r.status.toStack b &&& 0xF7 := by
  obtain ⟨_, _, _, _, _, c, z, i, e, v, n⟩ := r
  simp only [Registers.withDecimal]
  revert c z i e v n d b
  decide

/-- The word that two reads have given. -/
def wordRead : List Access → UInt16
  | [.read _ l, .read _ h] => Word.ofBytes l h
  | _ => 0

/-- **A call that pushes the status**, whatever D is: before the push nothing depends on it, and
after the push nothing but the program counter depends on what is read. -/
theorem call_of_pushStatus (plain : c.decimalMode = false) {i : Instruction}
    (h : decode (Bus.read bus c.registers.pc).1 = some i)
    (ho : i.operation ∈ Operation.pushStatus) :
    ∃ n before cell, ∃ (r : Registers) (pc : List Access → UInt16), ∀ d, ∃ read,
      (c.withDecimal d).call bus =
        ⟨.ok n, before ++ .write cell ((c.registers.withDecimal d).status.toStack true) :: read⟩ ∧
      read.map Access.readAt = (i.operation.reads .none c.registers).map some ∧
      ((c.withDecimal d).step bus).2.1 =
        { c with registers := { r with pc := pc read }.withDecimal d, total := c.total + n } := by
  obtain ⟨o, mode⟩ := i
  have h' : decode (Bus.read ({ bus } : Recorded β) c.registers.pc).1 = some ⟨o, mode⟩ := h
  obtain ⟨cost, operand, pc, before, hs⟩ := exists_step_withDecimal plain h'
  have hp : o = .php ∨ o = .brk := by simpa [Operation.pushStatus] using ho
  -- `PHP` pushes the status and no more; `BRK` pushes the counter before it and reads the vector
  -- after it
  rcases hp with rfl | rfl
  · refine ⟨cost, before.accesses.reverse, stackCell c.registers.sp,
      { c.registers with sp := c.registers.sp - 1 }, fun _ => pc, fun d => ⟨[], ?_, rfl, ?_⟩⟩
    · rw [call, ← (step_recorded _ _).1, accesses, hs, Operation.execute_php]
      simp [Bus.write, Registers.withDecimal]
    · rw [← (step_recorded _ _).2, hs, Operation.execute_php]
      rfl
  · let made := (pushWord { c.registers with pc } before (pc + 1)).2
    refine ⟨cost, made.accesses.reverse, stackCell (c.registers.sp - 1 - 1),
      { c.registers with
        sp := c.registers.sp - 1 - 1 - 1
        status := { c.registers.status with interrupt := true } }, wordRead, fun d => ?_⟩
    let pushed := Bus.write made (stackCell (c.registers.sp - 1 - 1))
      ((c.registers.withDecimal d).status.toStack true)
    obtain ⟨low, high, hw, ha⟩ := exists_readWord_recorded pushed irqVector
    refine ⟨[.read irqVector low, .read (irqVector + 1) high], ?_, rfl, ?_⟩
    · rw [call, ← (step_recorded _ _).1, accesses, hs, Operation.execute_brk]
      show Call.mk (.ok cost) (Bus.readWord pushed irqVector).2.accesses.reverse = _
      rw [ha]
      simp [pushed, Bus.write]
    · rw [← (step_recorded _ _).2, hs, Operation.execute_brk, wordRead, ← hw]
      rfl

/-- **The D flag cannot be observed** without decimal arithmetic, on any bus.  In a run of calls of
`step`, of any length, none of which pushes the status, it changes neither an answer nor an access,
and of the processor afterwards at most the D flag.  A call that pushes the status makes the same
accesses up to the push, and pushes a byte that differs in bit 3 at most; then it reads the same
places as it would with another D, and of the registers only the program counter depends on what is
read there. -/
theorem decimal_flag_unobserved (plain : c.decimalMode = false) (bus : β) :
    (∀ k, c.Quiet bus k → ∀ d, ∃ d', (c.withDecimal d).calls bus k =
      ((c.calls bus k).1, (c.calls bus k).2.1.withDecimal d', (c.calls bus k).2.2)) ∧
    (∀ i, decode (Bus.read bus c.registers.pc).1 = some i → i.operation ∈ Operation.pushStatus →
      ∃ n before cell, ∃ (r : Registers) (pc : List Access → UInt16), ∀ d, ∃ read,
        let pushed := (c.registers.withDecimal d).status.toStack true
        (c.withDecimal d).call bus = ⟨.ok n, before ++ .write cell pushed :: read⟩ ∧
        read.map Access.readAt = (i.operation.reads .none c.registers).map some ∧
        ((c.withDecimal d).step bus).2.1 =
          { c with registers := { r with pc := pc read }.withDecimal d, total := c.total + n } ∧
        pushed &&& 0xF7 = c.registers.status.toStack true &&& 0xF7) := by
  refine ⟨fun k quiet d => calls_withDecimal plain d k quiet, fun i h ho => ?_⟩
  obtain ⟨n, before, cell, r, pc, hd⟩ := call_of_pushStatus plain h ho
  refine ⟨n, before, cell, r, pc, fun d => ?_⟩
  obtain ⟨read, shown, places, after⟩ := hd d
  exact ⟨read, shown, places, after, toStack_withDecimal c.registers d true⟩

/-- `ADC #$01` gives `$0A` whatever D is, and then `PHP` pushes it. -/
theorem decimal_flag_unobserved_adc :
    let bus : Bus.Cells := ⟨[0x69, 0x01, 0x08]⟩
    let c : Cpu := { registers := { a := 0x09 } }
    let e : Cpu := (c.calls bus 1).2.1
    c.Quiet bus 1 ∧
      (∃ d', (c.withDecimal true).calls bus 1 =
        ((c.calls bus 1).1, e.withDecimal d', (c.calls bus 1).2.2)) ∧
      e.registers.a = 0x0A ∧ e.PushesStatus bus ∧
      ∃ n before cell, ∀ d, ∃ read, (e.withDecimal d).call bus =
        ⟨.ok n,
          before ++ .write cell ((e.registers.withDecimal d).status.toStack true) :: read⟩ := by
  intro bus c e
  have quiet : c.Quiet bus 1 := by
    intro i hi
    obtain rfl := Nat.lt_one_iff.1 hi
    decide +kernel
  obtain ⟨same, -⟩ := decimal_flag_unobserved (c := c) rfl bus
  obtain ⟨-, pushes⟩ := decimal_flag_unobserved (c := e) (calls_decimalMode c bus 1) bus
  obtain ⟨n, before, cell, r, pc, h⟩ := pushes ⟨.php, .implied⟩ (by decide +kernel) (by decide)
  refine ⟨quiet, same 1 quiet true, by decide +kernel, by decide +kernel, n, before, cell,
    fun d => ?_⟩
  obtain ⟨read, shown, -⟩ := h d
  exact ⟨read, shown⟩

end Cpu
end Famicom
