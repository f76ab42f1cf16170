/-
# What the cells of a cartridge hold

The four chips of a cartridge are one memory whose cells have names of their own (`Board.Cell`).
The two address spaces are two ways to reach them: `Board.ppuCell` and `Board.cpuCell?` say which
cell stands behind an address, and that is all that the bank registers and the mirroring decide.  A
read gives what the cell holds (`Board.content_ppuCell`, `Board.readCpu_eq`).  A write stores a
byte in its cell if that is one of RAM and behind the address at all (`Board.store?`).

So what a cell holds after any history is what has been stored in it last, and what it held before
if nothing has been (`Board.content_afterUses`), whatever bank or table it has been seen through.
-/

import Famicom.Proofs.Board.Lockout
import Mathlib.Logic.Function.Basic

namespace Famicom

/-- What the cells of a chip hold after a write. -/
theorem Chip.getElem?_write (c : Chip) (i j : Nat) (v : UInt8) :
    (c.write i v).bytes[j]? = if i % c.size = j then some v else c.bytes[j]? :=
  Array.getElem?_set (Nat.mod_lt i c.nonempty)

/-- Every address selects a cell of its chip. -/
theorem Chip.getElem?_mod_size (c : Chip) (i : Nat) : c.bytes[i % c.size]? = some (c.read i) :=
  Array.getElem?_eq_getElem _

namespace Board

/-- A cell of the memory of a cartridge. -/
inductive Cell where
  | prgRom (i : Nat)
  | prgRam (i : Nat)
  | chr (i : Nat)
  | nametable (i : Nat)
deriving DecidableEq, Repr

/-- What a cell holds, if it is there. -/
def content (b : Board) : Cell → Option UInt8
  | .prgRom i => b.prg.bytes[i]?
  | .prgRam i => b.prgRam[i]?
  | .chr i => b.chr.bytes[i]?
  | .nametable i => b.nametables[i]?

/-- Whether a cell is one of RAM. -/
def isRam (b : Board) : Cell → Bool
  | .prgRom _ => false
  | .chr _ => b.chrIsRam
  | .prgRam _ | .nametable _ => true

/-- The cell that the picture unit reaches at an address. -/
def ppuCell (b : Board) (address : Nat) : Cell :=
  if address % 0x4000 < 0x2000 then .chr (b.chrOffset (address % 0x4000) % b.chr.size)
  else .nametable (b.mirroring.offset (address % 0x4000))

/-- The cell that the processor reaches at an address, if it reaches one. -/
def cpuCell? (b : Board) (address : UInt16) : Option Cell :=
  if address < 0x6000 then none
  else if address < 0x8000 then
    if b.prgRamEnabled then some (.prgRam (address.toNat % 8192)) else none
  else some (.prgRom (b.prgOffset address % b.prg.size))

/-- **What the picture unit reads** is what its cell holds. -/
theorem content_ppuCell (b : Board) (address : Nat) :
    b.content (b.ppuCell address) = some (b.readPpu address) := by
  unfold ppuCell readPpu
  dsimp only
  split
  · exact b.chr.getElem?_mod_size _
  · exact Vector.getElem?_eq_getElem _

/-- **What the processor reads** is what its cell holds, and zero where there is none. -/
theorem content_cpuCell? (b : Board) (address : UInt16) :
    ((b.cpuCell? address = none ∧ b.readCpu address = 0) ∨
      ∃ cell, b.cpuCell? address = some cell ∧ b.content cell = some (b.readCpu address)) := by
  unfold cpuCell? readCpu
  split
  · exact .inl ⟨rfl, rfl⟩
  · split
    · split
      · exact .inr ⟨_, rfl, Vector.getElem?_eq_getElem _⟩
      · exact .inl ⟨rfl, rfl⟩
    · exact .inr ⟨_, rfl, b.prg.getElem?_mod_size _⟩

/-! ### What is done to a board

Reads change nothing and cycles no memory.  What is stored is read off a use and the board that it
is done to, because the registers have a say in where an address leads. -/

/-- What is done with a board. -/
inductive Use where
  | readCpu (address : UInt16)
  | writeCpu (address : UInt16) (v : UInt8)
  | readPpu (address : Nat)
  | writePpu (address : Nat) (v : UInt8)
  /-- A processor cycle passes. -/
  | tick
deriving DecidableEq, Repr

/-- The board after something has been done with it. -/
def use (b : Board) : Use → Board
  | .readCpu _ | .readPpu _ => b
  | .writeCpu address v => b.writeCpu address v
  | .writePpu address v => b.writePpu address v
  | .tick => b.tick

/-- The board after a history. -/
def afterUses (b : Board) (uses : List Use) : Board := uses.foldl use b

/-- The byte that is stored, and where, if one is. -/
def store? (b : Board) : Use → Option (Cell × UInt8)
  | .writeCpu address v => ((b.cpuCell? address).filter b.isRam).map (·, v)
  | .writePpu address v => if b.isRam (b.ppuCell address) then some (b.ppuCell address, v) else none
  | .readCpu _ | .readPpu _ | .tick => none

/-- The bytes that are stored in a history, the first in front. -/
def stores (b : Board) : List Use → List (Cell × UInt8)
  | [] => []
  | x :: rest => (b.store? x).toList ++ (b.use x).stores rest

/-- What the cells hold after a byte has been stored. -/
def put (content : Cell → Option UInt8) (s : Cell × UInt8) : Cell → Option UInt8 :=
  Function.update content s.1 (some s.2)

/-- A byte that is put into a cell is found there, and all others are where they were. -/
theorem put_apply (content : Cell → Option UInt8) (cell cell' : Cell) (v : UInt8) :
    put content (cell, v) cell' = if cell' = cell then some v else content cell' :=
  Function.update_apply ..

/-- What a write of the picture unit stores is what changes on the board. -/
theorem content_writePpu (b : Board) (address : Nat) (v : UInt8) :
    (b.writePpu address v).content =
      (b.store? (.writePpu address v)).toList.foldl put b.content := by
  unfold writePpu store? ppuCell
  dsimp only
  split
  · -- below the name tables a store is kept only by a board with pattern RAM
    cases hr : b.chrIsRam with
    | false =>
      simp only [isRam, hr]
      rfl
    | true =>
      simp only [isRam, hr, if_true, Option.toList_some, List.foldl_cons, List.foldl_nil]
      funext cell
      rw [put_apply]
      cases cell with
      | chr i =>
        simp only [content, Chip.getElem?_write, Cell.chr.injEq, eq_comm]
      | prgRom i | prgRam i | nametable i => rfl
  · simp only [isRam, if_true, Option.toList_some, List.foldl_cons, List.foldl_nil]
    funext cell
    rw [put_apply]
    cases cell with
    | nametable i => simp only [content, Vector.getElem?_set, Cell.nametable.injEq, eq_comm]
    | prgRom i | prgRam i | chr i => rfl

/-- Of what the processor writes only what goes to program RAM is stored. -/
theorem content_writeCpu (b : Board) (address : UInt16) (v : UInt8) :
    (b.writeCpu address v).content =
      (b.store? (.writeCpu address v)).toList.foldl put b.content := by
  by_cases h₆ : address < 0x6000
  · simp only [writeCpu, store?, cpuCell?, h₆, if_true]
    rfl
  · by_cases h₈ : address < 0x8000
    · cases hr : b.prgRamEnabled with
      | false =>
        simp only [writeCpu, store?, cpuCell?, h₆, h₈, hr, if_true, if_false, Bool.false_eq_true]
        rfl
      | true =>
        simp only [writeCpu, store?, cpuCell?, h₆, h₈, hr, if_true, if_false]
        show _ = put b.content (.prgRam (address.toNat % 8192), v)
        funext cell
        rw [put_apply]
        cases cell with
        | prgRam i => simp only [content, Vector.getElem?_set, Cell.prgRam.injEq, eq_comm]
        | prgRom i | chr i | nametable i => rfl
    · simp only [writeCpu, store?, cpuCell?, h₆, h₈, if_false]
      rfl

/-- A cycle changes no memory. -/
theorem content_tick (b : Board) : b.tick.content = b.content := by
  unfold tick
  split
  · split <;> rfl
  · rfl

/-- **What is done with a board stores a byte, or leaves all cells as they are.** -/
theorem content_use (b : Board) (x : Use) :
    (b.use x).content = (b.store? x).toList.foldl put b.content := by
  cases x with
  | readCpu address | readPpu address => rfl
  | writeCpu address v => exact b.content_writeCpu address v
  | writePpu address v => exact b.content_writePpu address v
  | tick => exact b.content_tick

/-- **What the cells hold after a history**: what has been stored in it, in turn. -/
theorem content_afterUses (b : Board) (uses : List Use) :
    (b.afterUses uses).content = (b.stores uses).foldl put b.content := by
  induction uses generalizing b with
  | nil => rfl
  | cons x rest ih =>
    rw [stores, List.foldl_append, ← content_use]
    exact ih (b.use x)

/-! ### What stays as it is

No use changes the program, which of the cells are RAM, or how many there are. -/

/-- Of a cartridge the processor changes the registers and program RAM. -/
theorem writeCpu_eq (b : Board) (address : UInt16) (v : UInt8) : ∃ wiring prgRam,
    b.writeCpu address v = { b with wiring, prgRam } := by
  unfold writeCpu
  split
  · exact ⟨b.wiring, b.prgRam, rfl⟩
  · split
    · split
      · exact ⟨b.wiring, _, rfl⟩
      · exact ⟨b.wiring, b.prgRam, rfl⟩
    · exact ⟨_, b.prgRam, rfl⟩

/-- Of a cartridge the picture unit changes character RAM and nametable memory, and never character
ROM. -/
theorem writePpu_eq (b : Board) (address : Nat) (v : UInt8) : ∃ chr nametables,
    b.writePpu address v = { b with chr, nametables } ∧ chr.size = b.chr.size ∧
      (b.chrIsRam = false → chr = b.chr) := by
  unfold writePpu
  dsimp only
  split
  · split
    · rename_i hr
      exact ⟨_, b.nametables, rfl, b.chr.size_write _ v,
        fun hn => absurd (hr.symm.trans hn) (by decide)⟩
    · exact ⟨b.chr, b.nametables, rfl, rfl, fun _ => rfl⟩
  · exact ⟨b.chr, _, rfl, rfl, fun _ => rfl⟩

/-- In a cycle only the registers can change. -/
theorem tick_eq (b : Board) : ∃ wiring, b.tick = { b with wiring } := by
  unfold tick
  split
  · split
    · exact ⟨b.wiring, rfl⟩
    · exact ⟨_, rfl⟩
  · exact ⟨b.wiring, rfl⟩

/-- What stays as it is in a board, whatever is done with it: its kind, its ROM, and the size of
its character memory. -/
structure Fixed (b b' : Board) : Prop where
  number : b'.number = b.number
  prg : b'.prg = b.prg
  chrIsRam : b'.chrIsRam = b.chrIsRam
  chrSize : b'.chr.size = b.chr.size
  chrRom : b.chrIsRam = false → b'.chr = b.chr

/-- Nothing has changed on a board that is left alone, -/
theorem Fixed.refl (b : Board) : Fixed b b := ⟨rfl, rfl, rfl, rfl, fun _ => rfl⟩

/-- and what stays in two uses stays in both together. -/
theorem Fixed.trans {b b' b'' : Board} (h : Fixed b b') (k : Fixed b' b'') : Fixed b b'' where
  number := k.number.trans h.number
  prg := k.prg.trans h.prg
  chrIsRam := k.chrIsRam.trans h.chrIsRam
  chrSize := k.chrSize.trans h.chrSize
  chrRom hr := (k.chrRom (h.chrIsRam.trans hr)).trans (h.chrRom hr)

/-- No use of a board changes which parts it has. -/
theorem fixed_use (b : Board) (x : Use) : Fixed b (b.use x) := by
  cases x with
  | readCpu address | readPpu address => exact .refl b
  | writeCpu address v =>
    obtain ⟨wiring, prgRam, h⟩ := b.writeCpu_eq address v
    rw [use, h]
    exact ⟨rfl, rfl, rfl, rfl, fun _ => rfl⟩
  | writePpu address v =>
    obtain ⟨chr, nametables, h, hs, hr⟩ := b.writePpu_eq address v
    rw [use, h]
    exact ⟨rfl, rfl, rfl, hs, hr⟩
  | tick =>
    obtain ⟨wiring, h⟩ := b.tick_eq
    rw [use, h]
    exact ⟨rfl, rfl, rfl, rfl, fun _ => rfl⟩

/-- **What stays as it is in any history.** -/
theorem fixed_afterUses (b : Board) (uses : List Use) : Fixed b (b.afterUses uses) := by
  induction uses generalizing b with
  | nil => exact .refl b
  | cons x rest ih => exact (b.fixed_use x).trans (ih (b.use x))

/-- So a cell that is RAM stays RAM, -/
theorem isRam_use (b : Board) (x : Use) : (b.use x).isRam = b.isRam := by
  funext cell
  cases cell with
  | chr i => exact (b.fixed_use x).chrIsRam
  | prgRom i | prgRam i | nametable i => rfl

/-- A byte is stored in a cell of RAM only. -/
theorem isRam_of_store? {b : Board} {x : Use} {s : Cell × UInt8} (h : b.store? x = some s) :
    b.isRam s.1 = true := by
  cases x with
  | readCpu address | readPpu address | tick => cases h
  | writeCpu address v =>
    obtain ⟨cell, hc, rfl⟩ := Option.map_eq_some_iff.1 h
    exact (Option.filter_eq_some_iff.1 hc).2
  | writePpu address v =>
    unfold store? at h
    dsimp only at h
    split at h
    · obtain rfl := Option.some.inj h
      assumption
    · cases h

/-- and only into RAM is something stored. -/
theorem isRam_of_mem_stores {b : Board} {uses : List Use} {s : Cell × UInt8}
    (h : s ∈ b.stores uses) : b.isRam s.1 = true := by
  induction uses generalizing b with
  | nil => cases h
  | cons x rest ih =>
    rw [stores, List.mem_append, Option.mem_toList] at h
    obtain h | h := h
    · exact isRam_of_store? h
    · rw [← b.isRam_use x]
      exact ih h

/-! ### Reading what has been written -/

/-- A cell in which nothing is stored keeps its byte. -/
theorem foldl_put_of_forall_ne {stores : List (Cell × UInt8)} {cell : Cell}
    (h : ∀ s ∈ stores, s.1 ≠ cell) (content : Cell → Option UInt8) :
    stores.foldl put content cell = content cell := by
  induction stores generalizing content with
  | nil => rfl
  | cons s rest ih =>
    obtain ⟨hs, hr⟩ := List.forall_mem_cons.1 h
    rw [List.foldl_cons, ih hr]
    exact Function.update_of_ne hs.symm _ _

/-- What the picture unit writes does not change which cell is reached. -/
theorem ppuCell_writePpu (b : Board) (address address' : Nat) (v : UInt8) :
    (b.writePpu address v).ppuCell address' = b.ppuCell address' := by
  unfold writePpu
  dsimp only
  split
  · split
    · unfold ppuCell
      rw [Chip.size_write]
      rfl
    · rfl
  · rfl

/-- What a cell holds after a byte has been stored, in terms of what it held. -/
theorem eq_of_put {content : Cell → Option UInt8} {cell cell' : Cell} {v r r₀ : UInt8}
    (h₀ : content cell' = some r₀) (h : put content (cell, v) cell' = some r) :
    r = if cell = cell' then v else r₀ := by
  rw [put_apply, h₀] at h
  by_cases he : cell = cell'
  · rw [if_pos he.symm] at h
    rw [if_pos he]
    exact (Option.some.inj h).symm
  · rw [if_neg (Ne.symm he)] at h
    rw [if_neg he]
    exact (Option.some.inj h).symm

/-- **What the picture unit reads after it has written.** -/
theorem readPpu_writePpu (b : Board) (address address' : Nat) (v : UInt8) :
    (b.writePpu address v).readPpu address' =
      if b.ppuCell address = b.ppuCell address' ∧ b.isRam (b.ppuCell address) then v
      else b.readPpu address' := by
  have h₀ := b.content_ppuCell address'
  have h := (b.writePpu address v).content_ppuCell address'
  rw [ppuCell_writePpu, content_writePpu, store?] at h
  cases hr : b.isRam (b.ppuCell address) with
  | false =>
    rw [hr, if_neg Bool.false_ne_true] at h
    rw [if_neg fun hc => Bool.false_ne_true hc.2]
    exact Option.some.inj (h.symm.trans h₀)
  | true =>
    rw [hr, if_pos rfl] at h
    simp only [and_true]
    exact eq_of_put h₀ h

/-! ### Program RAM

The serial board can switch its program RAM off.  Then it reads as zero and nothing can be written
to it, so what it held is there again when it is switched on. -/

/-- Whether an address belongs to program RAM. -/
def inPrgRam (address : UInt16) : Bool := 0x6000 ≤ address && address < 0x8000

/-- The addresses of program RAM are `$6000` to `$7FFF`. -/
theorem bounds_of_inPrgRam {address : UInt16} (h : inPrgRam address = true) :
    ¬address < 0x6000 ∧ address < 0x8000 := by
  rw [inPrgRam, Bool.and_eq_true, decide_eq_true_eq, decide_eq_true_eq] at h
  exact ⟨UInt16.not_lt.2 h.1, h.2⟩

/-- Program RAM has a cell for each of its addresses. -/
theorem mod_eq_mod_iff_of_inPrgRam {address address' : UInt16} (h : inPrgRam address = true)
    (h' : inPrgRam address' = true) :
    address.toNat % 8192 = address'.toNat % 8192 ↔ address = address' := by
  simp only [inPrgRam, Bool.and_eq_true, decide_eq_true_eq, UInt16.le_iff_toNat_le,
    UInt16.lt_iff_toNat_lt, UInt16.reduceToNat] at h h'
  rw [← UInt16.toNat_inj]
  omega

/-- There an access finds a cell exactly while the RAM is enabled. -/
theorem cpuCell?_of_inPrgRam {address : UInt16} (h : inPrgRam address = true) (b : Board) :
    b.cpuCell? address =
      if b.prgRamEnabled then some (.prgRam (address.toNat % 8192)) else none := by
  obtain ⟨h₆, h₈⟩ := bounds_of_inPrgRam h
  rw [cpuCell?, if_neg h₆, if_pos h₈]

/-- As long as program RAM answers, what is read there is what its cell holds. -/
theorem content_of_enabled {b : Board} (he : b.prgRamEnabled = true) {address : UInt16}
    (h : inPrgRam address = true) :
    b.content (.prgRam (address.toNat % 8192)) = some (b.readCpu address) := by
  have hc := cpuCell?_of_inPrgRam h b
  rw [he, if_pos rfl] at hc
  obtain ⟨hn, -⟩ | ⟨cell, hs, hr⟩ := b.content_cpuCell? address
  · rw [hn] at hc
    cases hc
  · obtain rfl := Option.some.inj (hc.symm.trans hs)
    exact hr

/-- **What the processor reads from program RAM after it has written there.** -/
theorem readCpu_writeCpu_of_enabled {b : Board} (he : b.prgRamEnabled = true)
    {address address' : UInt16} (h : inPrgRam address = true) (h' : inPrgRam address' = true)
    (v : UInt8) :
    (b.writeCpu address v).readCpu address' =
      if address = address' then v else b.readCpu address' := by
  have he' : (b.writeCpu address v).prgRamEnabled = true := by
    rw [prgRamEnabled, (unmoved_writeCpu (bounds_of_inPrgRam h).2 b v).wiring]
    exact he
  have hr := content_of_enabled he' h'
  rw [content_writeCpu, store?, cpuCell?_of_inPrgRam h, he] at hr
  have hp := eq_of_put (content_of_enabled he h') hr
  simpa only [Cell.prgRam.injEq, mod_eq_mod_iff_of_inPrgRam h h'] using hp

/-- **As long as program RAM does not answer** it is not there: nothing is read, and nothing is
written. -/
theorem access_of_disabled {b : Board} (he : b.prgRamEnabled = false) {address : UInt16}
    (h : inPrgRam address = true) (v : UInt8) :
    b.readCpu address = 0 ∧ b.writeCpu address v = b := by
  obtain ⟨h₆, h₈⟩ := bounds_of_inPrgRam h
  rw [readCpu, writeCpu, if_neg h₆, if_neg h₆, if_pos h₈, if_pos h₈, he]
  exact ⟨rfl, rfl⟩

/-- Program RAM does not answer if it is the serial board's and its register has bit 4 set. -/
theorem prgRamEnabled_eq_false_iff (b : Board) :
    b.prgRamEnabled = false ↔ ∃ m, b.wiring = .mmc1 m ∧ m.prgBank &&& 0x10 ≠ 0 := by
  unfold prgRamEnabled
  cases hw : b.wiring with
  | mmc1 m => simp [Mmc1.prgRamEnabled]
  | nrom | uxrom bank | cnrom bank => simp

/-- **What the memory of a cartridge holds.**  What the picture unit has written it reads wherever
it reaches the same cell, if this is one of RAM; everywhere else it reads what it did.  What the
processor has written to program RAM it reads at the same address, and nowhere else; as long as the
serial board keeps program RAM from answering, it reads zero there, and what it writes is lost.

A read is a look at a cell.  After any history each cell holds what has been stored in it last,
whatever has been switched since, and what it held before if nothing has been.  Stored is a byte in
cells of RAM only, so that ROM never changes; switching a bank or the mirroring and the passing of
a cycle store nothing. -/
theorem memory_holds_stores (b : Board) :
    (∀ address address' v, (b.writePpu address v).readPpu address' =
      if b.ppuCell address = b.ppuCell address' ∧ b.isRam (b.ppuCell address) then v
      else b.readPpu address') ∧
    (∀ address address', inPrgRam address = true → inPrgRam address' = true → ∀ v,
      (b.prgRamEnabled = true →
        (b.writeCpu address v).readCpu address' =
          if address = address' then v else b.readCpu address') ∧
      (b.prgRamEnabled = false → b.readCpu address' = 0 ∧ b.writeCpu address v = b)) ∧
    (b.prgRamEnabled = false ↔ ∃ m, b.wiring = .mmc1 m ∧ m.prgBank &&& 0x10 ≠ 0) ∧
    (∀ address, b.content (b.ppuCell address) = some (b.readPpu address)) ∧
    (∀ address, b.readCpu address = ((b.cpuCell? address).bind b.content).getD 0) ∧
    (∀ uses,
      (b.afterUses uses).content = (b.stores uses).foldl put b.content ∧
      (∀ s ∈ b.stores uses, b.isRam s.1 = true) ∧
      ∀ cell, (∀ s ∈ b.stores uses, s.1 ≠ cell) →
        (b.afterUses uses).content cell = b.content cell) ∧
    (∀ address v, 0x8000 ≤ address → (b.writeCpu address v).content = b.content) ∧
    b.tick.content = b.content := by
  refine ⟨b.readPpu_writePpu, ?_, b.prgRamEnabled_eq_false_iff, b.content_ppuCell, ?_, ?_, ?_,
    b.content_tick⟩
  · intro address address' h h' v
    exact ⟨fun he => readCpu_writeCpu_of_enabled he h h' v,
      fun he => ⟨(access_of_disabled he h' v).1, (access_of_disabled he h v).2⟩⟩
  · intro address
    obtain ⟨hc, hr⟩ | ⟨cell, hc, hr⟩ := b.content_cpuCell? address
    · rw [hc, hr]
      rfl
    · rw [hc, Option.bind_some, hr]
      rfl
  · intro uses
    refine ⟨b.content_afterUses uses, fun s => isRam_of_mem_stores, fun cell h => ?_⟩
    rw [content_afterUses]
    exact foldl_put_of_forall_ne h b.content
  · intro address v h
    rw [writeCpu_of_le h]
    rfl

/-- On a blank serial board a byte is written to program RAM, which is then switched off and on
again; while it is off nothing is read and nothing is stored. -/
theorem memory_holds_stores_blank :
    let b := blankSerial
    let off : Board := { b.writeCpu 0x6001 0x55 with wiring := .mmc1 { prgBank := 0x10 } }
    let uses := [.writeCpu 0x6001 0xAA, .tick, .readCpu 0x6001]
    inPrgRam 0x6001 = true ∧ b.prgRamEnabled = true ∧ off.prgRamEnabled = false ∧
      (0x8000 : UInt16) ≤ 0xE000 ∧ (∀ s ∈ off.stores uses, s.1 ≠ .prgRam 1) ∧
      (b.writeCpu 0x6001 0x55).readCpu 0x6001 = 0x55 ∧ off.readCpu 0x6001 = 0 ∧
      (off.afterUses uses).content (.prgRam 1) = some 0x55 ∧
      (off.writeCpu 0xE000 0x00).content = off.content := by
  intro b off uses
  have hs : ∀ s ∈ off.stores uses, s.1 ≠ .prgRam 1 := by
    have hn : off.stores uses = [] := rfl
    rw [hn]
    exact fun _ => nofun
  have hc : off.content (.prgRam 1) = some 0x55 := Vector.getElem?_set_self (by decide)
  obtain ⟨-, hw, -⟩ := memory_holds_stores b
  obtain ⟨-, hoff, -, -, -, hu, hm, -⟩ := memory_holds_stores off
  refine ⟨rfl, rfl, rfl, by decide, hs, ?_, ?_, ?_, hm 0xE000 0x00 (by decide)⟩
  · exact (hw 0x6001 0x6001 rfl rfl 0x55).1 rfl
  · exact ((hoff 0x6001 0x6001 rfl rfl 0x55).2 rfl).1
  · rw [(hu uses).2.2 _ hs]
    exact hc

end Board
end Famicom
