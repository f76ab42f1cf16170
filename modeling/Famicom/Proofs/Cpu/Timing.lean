/-
# What an instruction costs

The opcode names a number of cycles (`Cpu.baseCost`), and three things can happen on the way that
cost more:

| what happens | who pays | cycles |
| --- | --- | --- |
| an index leads out of the page of the base address | what only reads its operand | 1 |
| a branch is taken | the branch | 1 |
| its target lies in another page than the next instruction | the branch | 1 |

What changes its operand goes by the longer way at all times, and so the state has no say in what
it costs.  Which page an address lies in is said by its high byte.  Both sums, of base and index
and of program counter and distance, wrap at the ends of memory.

`Cpu.step_timing` says so of every instruction that is carried out.  It follows from what a mode
has found (`Cpu.leftPage_iff`) and from what the operations ask for themselves
(`Operation.execute_cost`, `Operation.execute_taken`).
-/

import Famicom.Proofs.Cpu.StoreCost

namespace Famicom

/-- What a mask leaves of a word is its high byte. -/
theorem Word.and_high (w : UInt16) : w &&& 0xFF00 = ofBytes 0 (high w) := by
  have h : (high w).toUInt16 = w >>> 8 := by
    apply UInt16.toNat_inj.1
    rw [UInt8.toNat_toUInt16, toNat_high, UInt16.toNat_shiftRight]
    exact (Nat.shiftRight_eq_div_pow w.toNat 8).symm
  rw [ofBytes, h]
  apply UInt16.eq_of_toBitVec_eq
  refine (BitVec.shiftLeft_ushiftRight (x := w.toBitVec) (n := 8)).symm.trans ?_
  exact BitVec.or_zero.symm

namespace Cpu

open Bus (Access Recorded)

/-- A page has the addresses with one high byte. -/
theorem leavesPage_iff (a b : UInt16) : leavesPage a b = true ↔ Word.high b ≠ Word.high a := by
  rw [leavesPage, bne_iff_ne, Word.and_high, Word.and_high, ne_comm]
  refine not_congr ⟨fun h => ?_, fun h => by rw [h]⟩
  have h := congrArg UInt16.toNat h
  rw [Word.toNat_ofBytes, Word.toNat_ofBytes] at h
  apply UInt8.toNat_inj.1
  omega

/-- The cycles that the opcodes name: a row for each upper digit of the opcode, a place for each
lower one, and nothing where no instruction stands. -/
def Opcode.costs : List (List Nat) :=
  [
    [7, 6, 0, 0, 0, 3, 5, 0, 3, 2, 2, 0, 0, 4, 6, 0],
    [2, 5, 0, 0, 0, 4, 6, 0, 2, 4, 0, 0, 0, 4, 7, 0],
    [6, 6, 0, 0, 3, 3, 5, 0, 4, 2, 2, 0, 4, 4, 6, 0],
    [2, 5, 0, 0, 0, 4, 6, 0, 2, 4, 0, 0, 0, 4, 7, 0],
    [6, 6, 0, 0, 0, 3, 5, 0, 3, 2, 2, 0, 3, 4, 6, 0],
    [2, 5, 0, 0, 0, 4, 6, 0, 2, 4, 0, 0, 0, 4, 7, 0],
    [6, 6, 0, 0, 0, 3, 5, 0, 4, 2, 2, 0, 5, 4, 6, 0],
    [2, 5, 0, 0, 0, 4, 6, 0, 2, 4, 0, 0, 0, 4, 7, 0],
    [0, 6, 0, 0, 3, 3, 3, 0, 2, 0, 2, 0, 4, 4, 4, 0],
    [2, 6, 0, 0, 4, 4, 4, 0, 2, 5, 2, 0, 0, 5, 0, 0],
    [2, 6, 2, 0, 3, 3, 3, 0, 2, 2, 2, 0, 4, 4, 4, 0],
    [2, 5, 0, 0, 4, 4, 4, 0, 2, 4, 2, 0, 4, 4, 4, 0],
    [2, 6, 0, 0, 3, 3, 5, 0, 2, 2, 2, 0, 4, 4, 6, 0],
    [2, 5, 0, 0, 0, 4, 6, 0, 2, 4, 0, 0, 0, 4, 7, 0],
    [2, 6, 0, 0, 3, 3, 5, 0, 2, 2, 2, 0, 4, 4, 6, 0],
    [2, 5, 0, 0, 0, 4, 6, 0, 2, 4, 0, 0, 0, 4, 7, 0]
  ]

/-- The cycles that an opcode names. -/
def baseCost (opcode : UInt8) : Nat := Opcode.costs.flatten.getD opcode.toNat 0

/-- **The cost that follows from mode and kind is the one that the opcode names.** -/
theorem cycles_eq_baseCost {opcode : UInt8} {i : Instruction} (h : decode opcode = some i) :
    i.cycles = baseCost opcode := by
  have table : Opcode.rows.flatten.map (fun entry => entry.elim 0 Instruction.cycles) =
      Opcode.costs.flatten := by decide +kernel
  obtain h := Option.join_eq_some_iff.1 h
  rw [Opcode.table, List.getElem?_toArray] at h
  rw [baseCost, ← table, List.getD_eq_getElem?_getD, List.getElem?_map, h]
  rfl

/-- `LDA` with a byte behind it, with an address, and `INC` with an index. -/
example : [0xA9, 0xAD, 0xFE].map baseCost = [2, 4, 7] := by decide

/-- The operations that are carried out under a condition. -/
def Operation.conditional : List Operation := [bcc, bcs, bne, beq, bpl, bmi, bvc, bvs]

/-- What the instruction set says of branches and of the rest: a branch names two cycles and has
its distance behind the opcode; the rest names seven at the most, the cycle for a page among them,
and pays it if an index is added to an address and the operand stays as it is. -/
theorem decode_costs {opcode : UInt8} {i : Instruction} (h : decode opcode = some i) :
    (i.operation ∈ Operation.conditional → i.cycles = 2 ∧ i.mode = .relative ∧
      i.operation.changesOperand = false) ∧
    i.cycles + i.paysForPage.toNat ≤ 7 ∧
    i.paysForPage = (i.mode.indexesAddress && !i.operation.changesOperand) := by
  have table : ∀ entry ∈ Opcode.rows.flatten, ∀ i ∈ entry,
      (i.operation ∈ Operation.conditional → i.cycles = 2 ∧ i.mode = .relative ∧
        i.operation.changesOperand = false) ∧
      i.cycles + i.paysForPage.toNat ≤ 7 ∧
      i.paysForPage = (i.mode.indexesAddress && !i.operation.changesOperand) := by decide +kernel
  exact forall_of_decode table h

/-! ### When a page is left

The page that counts is that of the address before the index is added.  This address is not kept
anywhere, but it has been read, and so it can be found in the accesses. -/

/-- The address in two bytes that were read. -/
def addressRead : List Access → Option UInt16
  | [.read _ low, .read _ high] => some (Word.ofBytes low high)
  | _ => none

/-- The address that an index is added to: it stands behind the opcode, or a byte there points at
it. -/
def AddressingMode.base? (mode : AddressingMode) (fetched pointed : List Access) : Option UInt16 :=
  match mode with
  | .absoluteX | .absoluteY => addressRead fetched
  | .indirectY => addressRead pointed
  | _ => none

/-- An index has led out of the page of the base address. -/
def AddressingMode.LeavesPage (mode : AddressingMode) (fetched pointed : List Access)
    (operand : Operand) : Prop :=
  ∃ base ∈ mode.base? fetched pointed, ∃ address ∈ operand.cells, Word.high address ≠ Word.high base

/-- No index leads out of a page unless it is added to an address. -/
theorem AddressingMode.LeavesPage.indexesAddress {mode : AddressingMode}
    {fetched pointed : List Access} {operand : Operand}
    (h : mode.LeavesPage fetched pointed operand) : mode.indexesAddress = true := by
  obtain ⟨base, hb, -⟩ := h
  cases mode with
  | absoluteX | absoluteY | indirectY => rfl
  | _ => cases hb

variable {β : Type} [Bus β]

/-- **A mode notices when its index leads out of the page.** -/
theorem leftPage_iff {mode : AddressingMode} {pc : UInt16} {x y : UInt8}
    {fetched pointed : List Access} {operand : Operand}
    (h : mode.Finds pc x y fetched pointed operand) {b : β}
    (ho : (mode.locate pc x y b).1.operand = operand) :
    (mode.locate pc x y b).1.leftPage = true ↔ mode.LeavesPage fetched pointed operand := by
  -- the operand that was found and the index give the base
  have indexed {base base' : UInt16} {index : UInt8}
      (ho : (Located.indexed base' index).operand = .memory (base + index.toUInt16)) :
      (Located.indexed base' index).leftPage = true ↔
        ∃ b ∈ some base, ∃ a ∈ [base + index.toUInt16], Word.high a ≠ Word.high b := by
    rw [(UInt16.add_left_inj _).1 (Operand.memory.inj ho)]
    simp [Located.indexed, leavesPage_iff]
  cases h with
  | absoluteX low high => exact indexed ho
  | absoluteY low high => exact indexed ho
  | indirectY b l h => exact indexed ho
  | _ =>
    constructor
    · intro h
      cases h
    · intro h
      cases h.indexesAddress

namespace Operation

variable {o : Operation} {r : Registers}

/-- Only conditional branches branch, -/
theorem mem_of_branches {s : Status} (h : o.branches s = true) : o ∈ conditional := by
  cases o with
  | bcc | bcs | bne | beq | bpl | bmi | bvc | bvs => decide
  | _ => cases h

/-- and they redirect the program exactly if they do. -/
theorem redirects_of_conditional (h : o ∈ conditional) (s : Status) :
    o.redirects s = o.branches s := by
  cases o with
  | jmp | jsr | rts | rti | brk => exact absurd h (by decide)
  | _ => rfl

/-! ### What the execution adds

Only a branch that is taken adds to the cost of an instruction when it is carried out. -/

/-- **Only a branch that is taken asks for cycles itself.** -/
theorem execute_cost (h : o.branches r.status = false) (decimalMode : Bool) (operand : Operand)
    (b : β) : (o.execute decimalMode operand r b).1 = 0 := by
  cases o with
  | bcc | bcs | bne | beq | bpl | bmi | bvc | bvs =>
    exact congrArg Prod.fst (if_neg (Bool.eq_false_iff.1 h))
  | sta | stx | sty | jmp | jsr => cases operand <;> rfl
  | _ => rfl

/-- **A branch that is taken** reads its distance, goes there, and asks for one cycle, or for two
if the page is another one. -/
theorem execute_taken (h : o.branches r.status = true) (decimalMode : Bool) (a : UInt16) (b : β) :
    o.execute decimalMode (.memory a) r b =
      (if leavesPage r.pc (branchTarget r.pc (Bus.read b a).1) then 2 else 1,
        { r with pc := branchTarget r.pc (Bus.read b a).1 }, (Bus.read b a).2) := by
  cases o with
  | bcc | bcs | bne | beq | bpl | bmi | bvc | bvs =>
    exact if_pos h
  | _ => cases h

end Operation

/-- The distance of a branch is a byte with a sign, and the sum wraps. -/
theorem toNat_branchTarget (pc : UInt16) (distance : UInt8) :
    ((branchTarget pc distance).toNat : Int) = (pc.toNat + distance.toInt8.toInt) % 65536 := by
  have hsign : distance.toInt8.toInt =
      if 2 * distance.toNat < 256 then (distance.toNat : Int) else distance.toNat - 256 :=
    BitVec.toInt_eq_toNat_cond distance.toBitVec
  have hor : (0xFF00 ||| distance.toUInt16).toNat = 0xFF00 + distance.toNat := by
    rw [UInt16.toNat_or, UInt8.toNat_toUInt16]
    exact (Nat.two_pow_add_eq_or_of_lt distance.toNat_lt 0xFF).symm
  have hlt : distance < 0x80 ↔ distance.toNat < 128 := UInt8.lt_iff_toNat_lt
  rw [hsign, branchTarget, UInt16.toNat_add]
  by_cases h : distance.toNat < 128
  · rw [if_pos (hlt.2 h), if_pos (by omega), UInt8.toNat_toUInt16]
    omega
  · rw [if_neg (mt hlt.1 h), if_neg (by omega), hor]
    omega

/-- What an instruction is charged.  Before it the registers are `r` and afterwards `r'`; it is
charged `n`. -/
structure Timing (opcode : UInt8) (i : Instruction) (r r' : Registers) (operand : Operand)
    (fetched pointed worked : List Access) (n : Nat) : Prop where
  /-- An index that leads out of the page costs a cycle where the operand stays as it is. -/
  leaves : i.operation.changesOperand = false → i.mode.LeavesPage fetched pointed operand →
    n = baseCost opcode + 1
  /-- If it does not, what is no branch costs what its opcode names. -/
  stays : i.operation ∉ Operation.conditional → ¬ i.mode.LeavesPage fetched pointed operand →
    n = baseCost opcode
  /-- What changes its operand always does. -/
  changes : i.operation.changesOperand = true → n = baseCost opcode
  /-- A branch that is not taken. -/
  passes : i.operation ∈ Operation.conditional → i.operation.branches r.status = false →
    n = 2 ∧ r'.pc = r.pc + 2
  /-- A branch that is taken goes as far from the next instruction as its distance says. -/
  goes : i.operation.branches r.status = true → ∃ distance, worked = [.read (r.pc + 1) distance] ∧
    (r'.pc.toNat : Int) = ((r.pc + 2).toNat + distance.toInt8.toInt) % 65536
  /-- A branch that is taken and stays in the page of the next instruction. -/
  near : i.operation.branches r.status = true → Word.high r'.pc = Word.high (r.pc + 2) → n = 3
  /-- A branch that is taken and leaves it. -/
  far : i.operation.branches r.status = true → Word.high r'.pc ≠ Word.high (r.pc + 2) → n = 4

section Charge

variable {opcode : UInt8} {i : Instruction} {r r' : Registers} {operand : Operand}
  {fetched pointed worked : List Access} {n : Nat}

/-- **An instruction costs two cycles at the least and seven at the most.** -/
theorem Timing.bounds (h : Timing opcode i r r' operand fetched pointed worked n)
    (hd : decode opcode = some i) : 2 ≤ n ∧ n ≤ 7 := by
  obtain ⟨-, hmost, hpays⟩ := decode_costs hd
  have hleast := i.two_le_cycles
  rw [cycles_eq_baseCost hd] at hmost hleast
  by_cases ho : i.operation ∈ Operation.conditional
  · cases ht : i.operation.branches r.status with
    | false => have := h.passes ho ht; omega
    | true =>
      by_cases hp : Word.high r'.pc = Word.high (r.pc + 2)
      · have := h.near ht hp; omega
      · have := h.far ht hp; omega
  by_cases hl : i.mode.LeavesPage fetched pointed operand
  · cases hc : i.operation.changesOperand with
    | true => have := h.changes hc; omega
    | false =>
      rw [hpays, hl.indexesAddress, hc] at hmost
      have := h.leaves hc hl
      change baseCost opcode + 1 ≤ 7 at hmost
      omega
  · have := h.stays ho hl; omega

/-- The timing of what takes no branch: what the opcode names, and a cycle for a page. -/
theorem Timing.of_passes (hd : decode opcode = some i) (ht : i.operation.branches r.status = false)
    (hpc : i.operation.redirects r.status = false → r'.pc = r.pc + 1 + i.mode.operandBytes)
    {left : Bool} (hleft : left = true ↔ i.mode.LeavesPage fetched pointed operand)
    (hn : n = baseCost opcode + (left && i.paysForPage).toNat) :
    Timing opcode i r r' operand fetched pointed worked n := by
  obtain ⟨hbranch, -, hpays⟩ := decode_costs hd
  rw [hpays] at hn
  -- no branch is taken, so what a branch costs that is taken need not be shown
  have absurd_ht {P : Prop} (h : i.operation.branches r.status = true) : P :=
    absurd (ht.symm.trans h) Bool.noConfusion
  constructor
  case leaves =>
    intro hc hl
    rw [hn, hleft.2 hl, hl.indexesAddress, hc]
    rfl
  case stays =>
    intro _ hl
    rw [hn, Bool.eq_false_iff.2 (mt hleft.1 hl), Bool.false_and]
    rfl
  case changes =>
    intro hc
    rw [hn, hc, Bool.not_true, Bool.and_false, Bool.and_false]
    rfl
  case passes =>
    intro ho _
    obtain ⟨hcycles, hmode, -⟩ := hbranch ho
    rw [cycles_eq_baseCost hd] at hcycles
    rw [Operation.redirects_of_conditional ho, hmode] at hpc
    constructor
    · rw [hn, hcycles, hmode]
      exact congrArg (2 + ·) (congrArg Bool.toNat (Bool.and_false left))
    · exact (hpc ht).trans (UInt16.add_assoc ..)
  case goes => exact absurd_ht
  case near => exact absurd_ht
  case far => exact absurd_ht

/-- The timing of what takes a branch. -/
theorem Timing.of_goes (hd : decode opcode = some i) (ht : i.operation.branches r.status = true)
    {distance : UInt8} (hw : worked = [.read (r.pc + 1) distance])
    (hpc : r'.pc = branchTarget (r.pc + 2) distance)
    (hn : n = baseCost opcode + if leavesPage (r.pc + 2) r'.pc then 2 else 1) :
    Timing opcode i r r' operand fetched pointed worked n := by
  have ho := Operation.mem_of_branches ht
  obtain ⟨hcycles, hmode, hc⟩ := (decode_costs hd).1 ho
  rw [cycles_eq_baseCost hd] at hcycles
  rw [hcycles] at hn
  constructor
  case leaves =>
    -- a distance is no address, and no index is added to it
    intro _ hl
    have := hl.indexesAddress
    rw [hmode] at this
    cases this
  case stays => exact fun h => absurd ho h
  case changes =>
    intro h
    rw [hc] at h
    cases h
  case passes =>
    intro _ h
    rw [ht] at h
    cases h
  case goes => exact fun _ => ⟨distance, hw, by rw [hpc, toNat_branchTarget]⟩
  case near =>
    intro _ h
    rwa [if_neg (mt (leavesPage_iff _ _).1 (not_not_intro h))] at hn
  case far =>
    intro _ h
    rwa [if_pos ((leavesPage_iff _ _).2 h)] at hn

/-! ### The cost as charged and as promised -/

/-- What an instruction is charged that is carried out when its opcode has been read. -/
def charge (c : Cpu) (bus : β) (i : Instruction) : Nat :=
  i.cycles + ((i.mode.locate (c.registers.pc + 1) c.registers.x c.registers.y bus).1.leftPage &&
    i.paysForPage).toNat + (c.executed bus i).1

/-- A step costs what is charged and leaves what has been carried out. -/
theorem step_charge (c : Cpu) {bus bus₁ : β} (hread : Bus.read bus c.registers.pc = (opcode, bus₁))
    (h : decode opcode = some i) :
    c.step bus = (.ok (c.charge bus₁ i),
      { c with registers := (c.executed bus₁ i).2.1, total := c.total + c.charge bus₁ i },
      (c.executed bus₁ i).2.2) := by
  unfold step
  simp only [hread, h]
  rfl

/-- **The timing of an instruction**, on a bus with a record. -/
theorem timing_of_decode (c : Cpu) (b : Recorded β) (hd : decode opcode = some i) :
    ∃ operand fetched pointed worked,
      (c.executed b i).2.2.accesses =
        worked.reverse ++ (pointed.reverse ++ (fetched.reverse ++ b.accesses)) ∧
      i.mode.Finds (c.registers.pc + 1) c.registers.x c.registers.y fetched pointed operand ∧
      Timing opcode i c.registers (c.executed b i).2.1 operand fetched pointed worked
        (c.charge b i) := by
  obtain ⟨fetched, pointed, worked, hmade, hf, hw⟩ := c.executed_works b hd
  refine ⟨_, fetched, pointed, worked, hmade, hf, ?_⟩
  cases ht : i.operation.branches c.registers.status with
  | false =>
    refine .of_passes hd ht hw.pc (leftPage_iff hf rfl) ?_
    rw [charge, cycles_eq_baseCost hd]
    exact congrArg (_ + ·) (Operation.execute_cost (by exact ht) c.decimalMode _ _)
  | true =>
    obtain ⟨-, hmode, -⟩ := (decode_costs hd).1 (Operation.mem_of_branches ht)
    rcases i with ⟨o, mode⟩
    obtain rfl : mode = .relative := hmode
    have hnext : c.registers.pc + 1 + AddressingMode.relative.operandBytes = c.registers.pc + 2 :=
      UInt16.add_assoc ..
    have he : c.executed b ⟨o, .relative⟩ = _ :=
      Operation.execute_taken (r := { c.registers with
        pc := c.registers.pc + 1 + AddressingMode.relative.operandBytes }) ht c.decimalMode
        (c.registers.pc + 1) b
    cases hf
    rw [charge, cycles_eq_baseCost hd, he, hnext]
    rw [he] at hmade
    refine .of_goes hd ht ?_ rfl rfl
    have hmade :
        [Access.read (c.registers.pc + 1) _] ++ b.accesses = worked.reverse ++ b.accesses := hmade
    exact List.reverse_eq_iff.1 (List.append_cancel_right hmade).symm

end Charge

/-- **The timing of an instruction.**  Whatever the state of the processor and the bus, an
instruction that is carried out is charged what `Timing` says, between two cycles and seven, and
the same is added to the total. -/
theorem step_timing (c : Cpu) {bus bus' : β} {n : Nat} {d : Cpu}
    (h : c.step bus = (.ok n, d, bus')) :
    d.total = c.total + n ∧ 2 ≤ n ∧ n ≤ 7 ∧ ∃ i operand fetched pointed worked,
      decode (Bus.read bus c.registers.pc).1 = some i ∧
      c.accesses bus = .read c.registers.pc (Bus.read bus c.registers.pc).1 ::
        (fetched ++ pointed ++ worked) ∧
      i.mode.Finds (c.registers.pc + 1) c.registers.x c.registers.y fetched pointed operand ∧
      Timing (Bus.read bus c.registers.pc).1 i c.registers d.registers operand fetched pointed
        worked n := by
  cases hd : decode (Bus.read bus c.registers.pc).1 with
  | none =>
    unfold step at h
    simp only [hd] at h
    cases h
  | some i =>
    let r : Recorded β := (Bus.read ({ bus } : Recorded β) c.registers.pc).2
    obtain ⟨operand, fetched, pointed, worked, hmade, hf, ht⟩ := c.timing_of_decode r hd
    have hs := c.step_charge (show Bus.read ({ bus } : Recorded β) _ = (_, r) from rfl) hd
    -- the bus without a record gives the same answer
    obtain ⟨e, d', b, b', hr, hb, -⟩ :=
      step_alike Recorded.simulation (rfl : ({ bus } : Recorded β).Records bus) c
    rw [hb] at h
    cases h
    rw [hs] at hr
    cases hr
    obtain ⟨hleast, hmost⟩ := ht.bounds hd
    refine ⟨rfl, hleast, hmost, i, operand, fetched, pointed, worked, rfl, ?_, hf, ht⟩
    rw [accesses, hs, hmade]
    simp [r, Bus.read]

/-- `BCC` at the beginning of memory, back by four: the target lies at its end, and so in another
page. -/
theorem step_timing_around :
    let bus : Bus.Cells := ⟨[0x90, 0xFC]⟩
    let d : Cpu := { registers := { pc := 0xFFFE }, total := 4 }
    ({} : Cpu).step bus = (.ok 4, d, bus) ∧ d.total = 0 + 4 ∧ 2 ≤ 4 ∧ 4 ≤ 7 ∧
      ∃ i operand fetched pointed worked, decode (Bus.read bus 0).1 = some i ∧
        ({} : Cpu).accesses bus = .read 0 (Bus.read bus 0).1 :: (fetched ++ pointed ++ worked) ∧
        i.mode.Finds (0 + 1) 0 0 fetched pointed operand ∧
        Timing (Bus.read bus 0).1 i {} d.registers operand fetched pointed worked 4 := by
  intro bus d
  have hd : decode (Bus.read bus 0).1 = some ⟨.bcc, .relative⟩ := by decide +kernel
  have hn : ({} : Cpu).charge bus ⟨.bcc, .relative⟩ = 4 := by decide +kernel
  have he : ({} : Cpu).executed bus ⟨.bcc, .relative⟩ = (2, d.registers, bus) := by decide +kernel
  have h : ({} : Cpu).step bus = (.ok 4, d, bus) := by
    rw [step_charge {} (show Bus.read bus 0 = (_, bus) from rfl) hd, hn, he]
  exact ⟨h, step_timing {} h⟩

/-- `LDA $0002,X` with 254 in X leaves the page, and with 253 it does not. -/
example (bus : Bus.Cells) (h : bus = ⟨[0xBD, 0x02, 0x00]⟩) :
    (({ registers := { x := 0xFE } } : Cpu).step bus).1.toOption = some 5 ∧
      (({ registers := { x := 0xFD } } : Cpu).step bus).1.toOption = some 4 := by
  subst h
  decide +kernel

end Cpu
end Famicom
