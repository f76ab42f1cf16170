/-
# What the windows show

What stands in the windows of a board is up to its registers, and these are up to the history:
UxROM and CNROM go by the value that was last written to program ROM, the serial board by what its
deliveries decode to, and NROM by nothing (`Board.Recalls`).  So the bank of program ROM that shows
at an address (`Board.shownPrgBank`), and the cell of character memory (`Board.shownChrOffset`),
are read off the history, and no board is looked at.

The bank is one of those that there are, whatever the registers say and however many there are.  So
the byte that is read is one of the image, from the place where the bank lies in it
(`Board.windows_show_image`).
-/

import Famicom.Proofs.Board.Cells
import Famicom.Proofs.Board.Serial
import Famicom.Proofs.Cartridge.Image

namespace Famicom
namespace Board

open Mmc1 (Decodes Hearing Moment)

/-- What the registers notice of something that is done with a board. -/
def Use.moment? : Use → Option Moment
  | .writeCpu address v => if h : 0x8000 ≤ address then some (.deliver ⟨address, v, h⟩) else none
  | .tick => some .tick
  | .readCpu _ | .readPpu _ | .writePpu _ _ => none

/-- What the registers notice of a history. -/
def moments (uses : List Use) : List Moment := uses.filterMap Use.moment?

/-- The value that is written in a moment, if one is. -/
def written? : Moment → Option UInt8
  | .deliver d => some d.value
  | .tick => none

/-- The value that was last written to program ROM, or zero. -/
def lastWritten (history : List Moment) : Nat :=
  ((history.filterMap written?).getLast?.getD 0).toNat

/-- **The bank of program ROM that shows** at an address of `$8000`–`$FFFF` after a history, on a
board of a given number with so many banks. -/
def shownPrgBank (number : UInt8) (banks : Nat) (history : List Moment) (address : UInt16) : Nat :=
  let upper := 0xC000 ≤ address
  match number with
  | 1 =>
    let registers := Mmc1.decode (Hearing.ofHistory history).heard
    let prg := registers .prgBank
    match registers .control >>> 2 &&& 3 with
    | 0 | 1 => ((prg &&& 14) + if upper then 1 else 0) % banks
    | 2 => (if upper then prg &&& 15 else 0) % banks
    | _ => (if upper then banks - 1 else prg &&& 15) % banks
  | 2 => if upper then banks - 1 else (lastWritten history &&& 15) % banks
  | _ => (address.toNat - 0x8000) / 0x4000 % banks

/-- **The cell of character memory that shows** at an address of `$0000`–`$1FFF` after a history,
before it wraps. -/
def shownChrOffset (number : UInt8) (history : List Moment) (address : Nat) : Nat :=
  match number with
  | 1 =>
    let registers := Mmc1.decode (Hearing.ofHistory history).heard
    if (registers .control).testBit 4 then
      if address < 0x1000 then registers .chrBank0 * 0x1000 + address
      else registers .chrBank1 * 0x1000 + (address - 0x1000)
    else registers .chrBank0 / 2 * 0x2000 + address
  | 3 => (lastWritten history &&& 3) * 0x2000 + address
  | _ => address

/-- A cycle writes nothing. -/
theorem lastWritten_concat_tick (history : List Moment) :
    lastWritten (history ++ [.tick]) = lastWritten history := by
  have ht : [Moment.tick].filterMap written? = [] := rfl
  rw [lastWritten, List.filterMap_append, ht, List.append_nil, lastWritten]

/-- What is delivered last is what has been written last. -/
theorem lastWritten_concat_deliver (history : List Moment) (d : Mmc1.Delivery) :
    lastWritten (history ++ [.deliver d]) = d.value.toNat := by
  have hd : [Moment.deliver d].filterMap written? = [d.value] := rfl
  rw [lastWritten, List.filterMap_append, hd, List.getLast?_concat, Option.getD_some]

/-- What has been heard of a history is heard moment by moment. -/
theorem ofHistory_concat (history : List Moment) (x : Moment) :
    Hearing.ofHistory (history ++ [x]) = (Hearing.ofHistory history).next x :=
  List.foldl_append

/-! ### The registers recall the history

Of the four boards two remember what was written last, one decodes deliveries bit by bit, and one
has no registers. -/

/-- The registers of a board of a given number hold what its history says. -/
inductive Recalls (history : List Moment) : UInt8 → Wiring → Prop where
  | nrom : Recalls history 0 .nrom
  | mmc1 {m : Mmc1} (h : Decodes (Hearing.ofHistory history) m) : Recalls history 1 (.mmc1 m)
  | uxrom {bank : UInt8} (h : bank.toNat = lastWritten history &&& 15) :
    Recalls history 2 (.uxrom bank)
  | cnrom {bank : UInt8} (h : bank.toNat = lastWritten history &&& 3) :
    Recalls history 3 (.cnrom bank)

/-- At power-on nothing has been done. -/
theorem recalls_powerOn {number : UInt8} {w : Wiring} (h : Wiring.ofNumber? number = some w) :
    Recalls [] number w := by
  unfold Wiring.ofNumber? at h
  split at h
  · cases h
    exact .nrom
  · cases h
    exact .mmc1 Mmc1.decodes_powerOn
  · cases h
    exact .uxrom rfl
  · cases h
    exact .cnrom rfl
  · cases h

variable {b : Board} {number : UInt8} {history : List Moment}

/-- Of a delivery only the registers take notice. -/
theorem wiring_deliver (b : Board) (d : Mmc1.Delivery) :
    (b.next (.deliver d)).wiring = b.wiring.write d.address d.value := by
  rw [next, writeCpu_of_le d.reaches]
  rfl

/-- The cycles mean nothing to a board that is not the serial one. -/
theorem tick_of_forall_ne (h : ∀ m, b.wiring ≠ .mmc1 m) : b.next .tick = b := by
  rw [next, tick]
  split
  · rename_i m hm
    exact absurd hm (h m)
  · rfl

/-- **A moment later** the registers hold what the longer history says. -/
theorem Recalls.next (h : Recalls history number b.wiring) (x : Moment) :
    Recalls (history ++ [x]) number (b.next x).wiring := by
  cases hw : b.wiring with
  -- the serial board is the decoder's business; of the others only the last byte counts
  | mmc1 m =>
    rw [hw] at h
    obtain ⟨⟩ | ⟨k⟩ := h
    obtain ⟨n, hn, kn⟩ := wiring_next hw k x
    rw [hn]
    exact .mmc1 (by rwa [ofHistory_concat])
  | nrom =>
    rw [hw] at h
    cases h
    cases x with
    | tick =>
      rw [tick_of_forall_ne (by simp [hw]), hw]
      exact .nrom
    | deliver d =>
      rw [wiring_deliver, hw]
      exact .nrom
  | uxrom bank =>
    rw [hw] at h
    obtain ⟨⟩ | ⟨⟩ | ⟨hb⟩ := h
    cases x with
    | tick =>
      rw [tick_of_forall_ne (by simp [hw]), hw]
      exact .uxrom (by rwa [lastWritten_concat_tick])
    | deliver d =>
      rw [wiring_deliver, hw]
      exact .uxrom (by rw [lastWritten_concat_deliver, UInt8.toNat_and]; rfl)
  | cnrom bank =>
    rw [hw] at h
    obtain ⟨⟩ | ⟨⟩ | ⟨⟩ | ⟨hb⟩ := h
    cases x with
    | tick =>
      rw [tick_of_forall_ne (by simp [hw]), hw]
      exact .cnrom (by rwa [lastWritten_concat_tick])
    | deliver d =>
      rw [wiring_deliver, hw]
      exact .cnrom (by rw [lastWritten_concat_deliver, UInt8.toNat_and]; rfl)

/-- What is done with a board is a moment to its registers, or nothing. -/
theorem use_cases (b : Board) (x : Use) :
    (x.moment? = none ∧ (b.use x).wiring = b.wiring) ∨ ∃ y, x.moment? = some y ∧
      b.use x = b.next y := by
  cases x with
  | readCpu address | readPpu address => exact .inl ⟨rfl, rfl⟩
  | writePpu address v => exact .inl ⟨rfl, (b.unmoved_writePpu address v).wiring⟩
  | tick => exact .inr ⟨.tick, rfl, rfl⟩
  | writeCpu address v =>
    by_cases h : 0x8000 ≤ address
    · exact .inr ⟨.deliver ⟨address, v, h⟩, dif_pos h, rfl⟩
    · exact .inl ⟨dif_neg h, (unmoved_writeCpu (UInt16.not_le.1 h) b v).wiring⟩

/-- **After any history** the registers hold what it says. -/
theorem Recalls.afterUses (h : Recalls history number b.wiring) (uses : List Use) :
    Recalls (history ++ moments uses) number (b.afterUses uses).wiring := by
  induction uses generalizing b history with
  | nil =>
    rw [moments, List.filterMap_nil, List.append_nil]
    exact h
  | cons x rest ih =>
    obtain ⟨hm, hw⟩ | ⟨y, hm, hy⟩ := b.use_cases x
    · rw [moments, List.filterMap_cons_none hm]
      exact ih (hw.symm ▸ h)
    · rw [moments, List.filterMap_cons_some hm, List.append_cons]
      refine ih ?_
      rw [hy]
      exact h.next y

/-! ### Which banks are shown

The board computes offsets by masks and shifts and the history by quotients and remainders; here
the two are brought together, and the banks are in range. -/

/-- Without registers for it the banks of program ROM lie one behind the other. -/
theorem shownPrgBank_of_ne {number : UInt8} (h₁ : number ≠ 1) (h₂ : number ≠ 2) (banks : Nat)
    (history : List Moment) (address : UInt16) :
    shownPrgBank number banks history address = (address.toNat - 0x8000) / 0x4000 % banks := by
  unfold shownPrgBank
  dsimp only
  split
  · contradiction
  · contradiction
  · rfl

/-- With board 2 the last bank stays above and the chosen one shows below. -/
theorem shownPrgBank_uxrom (banks : Nat) (history : List Moment) (address : UInt16) :
    shownPrgBank 2 banks history address =
      if 0xC000 ≤ address then banks - 1 else (lastWritten history &&& 15) % banks := by
  simp [shownPrgBank]

/-- Of eight banks the fourth has been chosen: it shows below, and the last one above. -/
example : shownPrgBank 2 8 [.deliver ⟨0x8000, 3, by decide⟩, .tick] 0x8000 = 3 ∧
    shownPrgBank 2 8 [.deliver ⟨0x8000, 3, by decide⟩, .tick] 0xC000 = 7 := by decide

/-- The bank that shows is one of those that there are. -/
theorem shownPrgBank_lt {banks : Nat} (h : 0 < banks) (number : UInt8) (history : List Moment)
    (address : UInt16) : shownPrgBank number banks history address < banks := by
  unfold shownPrgBank
  dsimp only
  split
  · split
    · exact Nat.mod_lt _ h
    · exact Nat.mod_lt _ h
    · exact Nat.mod_lt _ h
    · exact Nat.mod_lt _ h
  · split
    · exact Nat.sub_lt h Nat.one_pos
    · exact Nat.mod_lt _ h
  · exact Nat.mod_lt _ h

/-- Without the lowest of its bits a number is even. -/
theorem and_14_eq {n : Nat} (h : n < 32) : n &&& 14 = n % 16 / 2 * 2 := by
  revert h
  revert n
  decide

/-- Four bits of a number. -/
theorem and_15_eq (n : Nat) : n &&& 15 = n % 16 := Nat.and_two_pow_sub_one_eq_mod n 4

/-- The two bits in the middle of a number. -/
theorem shiftRight_2_and_3_eq (n : Nat) : n >>> 2 &&& 3 = n / 4 % 4 := by
  rw [Nat.shiftRight_eq_div_pow]
  exact Nat.and_two_pow_sub_one_eq_mod _ 2

/-- On the serial board the bank is picked by the registers. -/
theorem prgBankAt_eq {m : Mmc1} (h : Decodes (Hearing.ofHistory history) m) (banks : Nat)
    (address : UInt16) : m.prgBankAt address banks = shownPrgBank 1 banks history address := by
  have hb : m.prgBank.toNat < 32 := UInt8.lt_iff_toNat_lt.1 (h.bounded .prgBank)
  have hc : m.control.toNat = Mmc1.decode (Hearing.ofHistory history).heard .control :=
    h.registers .control
  have hp : m.prgBank.toNat = Mmc1.decode (Hearing.ofHistory history).heard .prgBank :=
    h.registers .prgBank
  simp only [shownPrgBank, ← hc, ← hp, and_14_eq hb, and_15_eq, shiftRight_2_and_3_eq,
    Mmc1.prgBankAt]
  generalize m.control.toNat / 4 % 4 = mode
  rcases mode with _ | _ | _ | mode <;> rfl

/-- **The cell of program ROM that is read** lies in the bank that shows, as far from its start as
the address from the start of its window. -/
theorem prgOffset_mod (h : Recalls history number b.wiring) {banks : Nat} (hb : 0 < banks)
    (hs : b.prg.size = banks * Cartridge.prgBankSize) {address : UInt16} (ha : 0x8000 ≤ address) :
    b.prgOffset address % b.prg.size =
      16384 * shownPrgBank number banks history address + address.toNat % 16384 := by
  have hlt := shownPrgBank_lt hb number history address
  have hw : address.toNat % 16384 < 16384 := Nat.mod_lt _ (by decide)
  have hn : b.prgBanks = banks := by
    rw [prgBanks, hs, Nat.mul_div_cancel _ (by decide)]
  -- a bank that is there is not wrapped
  have hwrap {bank : Nat} (hk : bank < banks) :
      (bank * Cartridge.prgBankSize + address.toNat % 16384) % b.prg.size =
        16384 * bank + address.toNat % 16384 := by
    have : bank * 16384 + 16384 ≤ banks * 16384 := by omega
    rw [hs, Cartridge.prgBankSize, Nat.mod_eq_of_lt (by omega), Nat.mul_comm]
  -- without registers the whole of `$8000`–`$FFFF` is wrapped
  have hfixed : address.toNat % 0x8000 % b.prg.size =
      16384 * ((address.toNat - 0x8000) / 0x4000 % banks) + address.toNat % 16384 := by
    have hl : 0x8000 ≤ address.toNat := UInt16.le_iff_toNat_le.1 ha
    have hu := address.toNat_lt
    have he : address.toNat % 0x8000 = address.toNat - 0x8000 := by omega
    rw [hs, Cartridge.prgBankSize, Nat.mul_comm banks, Nat.mod_mul, he]
    omega
  unfold prgOffset
  dsimp only
  cases hk : b.wiring with
  | nrom =>
    rw [hk] at h
    cases h
    rw [shownPrgBank_of_ne (by decide) (by decide)]
    exact hfixed
  | mmc1 m =>
    rw [hk] at h
    obtain ⟨⟩ | ⟨k⟩ := h
    dsimp only
    rw [hn, prgBankAt_eq k]
    exact hwrap hlt
  | uxrom bank =>
    rw [hk] at h
    obtain ⟨⟩ | ⟨⟩ | ⟨k⟩ := h
    dsimp only
    have he : (if address < 0xC000 then bank.toNat % b.prgBanks else b.prgBanks - 1) =
        shownPrgBank 2 banks history address := by
      rw [hn, k, shownPrgBank_uxrom]
      by_cases hu : address < 0xC000
      · rw [if_pos hu, if_neg (UInt16.not_le.2 hu)]
      · rw [if_neg hu, if_pos (UInt16.not_lt.1 hu)]
    rw [he]
    exact hwrap hlt
  | cnrom bank =>
    rw [hk] at h
    cases h
    rw [shownPrgBank_of_ne (by decide) (by decide)]
    exact hfixed

/-- **The cell of character memory that is reached**, before it wraps. -/
theorem chrOffset_eq (h : Recalls history number b.wiring) {address : Nat} (ha : address < 0x2000) :
    b.chrOffset address = shownChrOffset number history address := by
  unfold chrOffset
  cases hk : b.wiring with
  | nrom | uxrom bank =>
    rw [hk] at h
    cases h
    rfl
  | cnrom bank =>
    rw [hk] at h
    obtain ⟨⟩ | ⟨⟩ | ⟨⟩ | ⟨k⟩ := h
    show bank.toNat * 0x2000 + address = _
    rw [k]
    rfl
  | mmc1 m =>
    rw [hk] at h
    obtain ⟨⟩ | ⟨k⟩ := h
    have h₀ : m.chrBank0.toNat = Mmc1.decode (Hearing.ofHistory history).heard .chrBank0 :=
      k.registers .chrBank0
    have h₁ : m.chrBank1.toNat = Mmc1.decode (Hearing.ofHistory history).heard .chrBank1 :=
      k.registers .chrBank1
    have hc : m.control.toNat = Mmc1.decode (Hearing.ofHistory history).heard .control :=
      k.registers .control
    have hb : m.chrBank0.toNat < 32 := UInt8.lt_iff_toNat_lt.1 (k.bounded .chrBank0)
    have hm := and_mask_ne_zero m.control 0x10 (i := 4) rfl
    simp only [shownChrOffset, ← h₀, ← h₁, ← hc, ← hm, Mmc1.chrOffset]
    -- one bank of 8 KiB without its lowest bit, or two banks of 4 KiB
    cases hz : m.control &&& 0x10 == 0 with
    | true =>
      simp only [bne, hz, if_true, Bool.not_true, Bool.false_eq_true, if_false]
      omega
    | false =>
      simp only [bne, hz, Bool.false_eq_true, if_false, Bool.not_false, if_true]
      split <;> omega

/-- What the processor reads from program ROM is one of its cells. -/
theorem getElem?_prgOffset {address : UInt16} (h : 0x8000 ≤ address) (b : Board) :
    b.prg.bytes[b.prgOffset address % b.prg.size]? = some (b.readCpu address) := by
  have h₆ : ¬address < 0x6000 := UInt16.not_lt.2 (UInt16.le_trans (by decide) h)
  rw [Chip.getElem?_mod_size, readCpu, if_neg h₆, if_neg (UInt16.not_lt.2 h)]

/-! ### The bytes of the image -/

/-- The size of the character memory that an image announces. -/
def chrSize (image : Array UInt8) : Nat :=
  if Cartridge.chrLength image = 0 then 8192 else Cartridge.chrLength image

section Image

variable {image : Array UInt8} {c : Cartridge}

/-- The chip of program ROM has the size that the image announces, -/
theorem size_prg_of_holds (h : c.Holds image) (k : Cartridge.Complete image) :
    c.prg.size = max 1 (image.getD 4 0).toNat * Cartridge.prgBankSize := by
  have hf := k.fits
  have hl := Cartridge.prgEnd_le_chrEnd image
  rw [Chip.size, h.prg, Array.size_extract, Nat.min_eq_left (Nat.le_trans hl hf), Cartridge.prgEnd,
    Nat.add_sub_cancel_left, Cartridge.prgLength, Nat.mul_comm]
  rfl

/-- and so has the character chip. -/
theorem size_chr_of_holds (h : c.Holds image) (k : Cartridge.Complete image) :
    c.chr.size = chrSize image := by
  rw [Chip.size, h.chr, chrSize]
  split
  · exact Array.size_replicate
  · rw [Array.size_extract, Nat.min_eq_left k.fits, Cartridge.chrEnd, Nat.add_sub_cancel_left]

/-- An image with character ROM gives no character RAM. -/
theorem chrIsRam_of_holds (h : c.Holds image) (hl : Cartridge.chrLength image ≠ 0) :
    c.chrIsRam = false := by
  have hn : (image.getD 5 0).toNat ≠ 0 := by
    intro hz
    rw [Cartridge.chrLength, hz] at hl
    exact hl rfl
  rw [Cartridge.chrIsRam, h.header]
  exact beq_false_of_ne hn

/-- **A board at power-on** has the chips of its cartridge, and registers that know of nothing. -/
theorem ofCartridge_cases (h : ofCartridge c = .ok b) :
    Recalls [] c.header.board b.wiring ∧ b.prg = c.prg ∧ b.chr = c.chr ∧
      b.chrIsRam = c.chrIsRam := by
  unfold ofCartridge at h
  split at h
  · cases h
  · rename_i wiring hw
    obtain rfl := Except.ok.inj h
    exact ⟨recalls_powerOn hw, rfl, rfl, rfl⟩

/-- **What the windows show.**  After any history of a board with the cartridge of an image in it
the processor reads at `$8000`–`$FFFF` the byte of the program ROM in the image that lies in the
bank that shows, and this is one of the banks that there are.  The picture unit reads at
`$0000`–`$1FFF` what is in the cell that shows, and if there is character ROM this is the byte of
the image.  The upper window of UxROM always shows what it did at power-on. -/
theorem windows_show_image (hc : Cartridge.parse image = .ok c) (hb : ofCartridge c = .ok b)
    (uses : List Use) :
    let banks := max 1 (image.getD 4 0).toNat
    let prg := image.extract (Cartridge.trainerEnd image) (Cartridge.prgEnd image)
    let chr := image.extract (Cartridge.prgEnd image) (Cartridge.chrEnd image)
    let after := b.afterUses uses
    (∀ address, 0x8000 ≤ address →
      let bank := shownPrgBank c.header.board banks (moments uses) address
      bank < banks ∧ prg[16384 * bank + address.toNat % 16384]? = some (after.readCpu address)) ∧
    (∀ address < 0x2000,
      let cell := shownChrOffset c.header.board (moments uses) address % chrSize image
      after.content (.chr cell) = some (after.readPpu address) ∧
        (Cartridge.chrLength image ≠ 0 → chr[cell]? = some (after.readPpu address))) ∧
    (c.header.board = 2 → ∀ address, 0xC000 ≤ address →
      after.readCpu address = b.readCpu address) := by
  intro banks prg chr after
  have hcomplete := Cartridge.complete_of_parse hc
  have hh : c.Holds image := by
    obtain ⟨d, hd, hk⟩ := hcomplete.parse
    obtain rfl := Except.ok.inj (hc.symm.trans hd)
    exact hk
  obtain ⟨hr, hprg, hchr, hram⟩ := ofCartridge_cases hb
  -- what is fixed on the board: its chips, but for pattern RAM
  have hfix : Fixed b after := b.fixed_afterUses uses
  -- what is not: its registers, which are found from the history
  have hafter : Recalls (moments uses) c.header.board after.wiring := by
    have h := hr.afterUses uses
    rwa [List.nil_append] at h
  have hpos : 0 < banks := Nat.lt_of_lt_of_le Nat.one_pos (Nat.le_max_left ..)
  have hsize : after.prg.size = banks * Cartridge.prgBankSize := by
    rw [hfix.prg, hprg]
    exact size_prg_of_holds hh hcomplete
  have hbytes : after.prg.bytes = prg := by
    rw [hfix.prg, hprg]
    exact hh.prg
  have hread {address : UInt16} (ha : 0x8000 ≤ address) :
      prg[16384 * shownPrgBank c.header.board banks (moments uses) address +
        address.toNat % 16384]? =
        some (after.readCpu address) := by
    rw [← prgOffset_mod hafter hpos hsize ha, ← hbytes]
    exact getElem?_prgOffset ha after
  refine ⟨fun address ha => ⟨shownPrgBank_lt hpos .., hread ha⟩, ?_, ?_⟩
  · intro address ha
    have hcell : after.ppuCell address =
        .chr (shownChrOffset c.header.board (moments uses) address % chrSize image) := by
      have hm : address % 0x4000 = address := Nat.mod_eq_of_lt (by omega)
      rw [ppuCell, hm, if_pos ha, chrOffset_eq hafter ha, hfix.chrSize, hchr,
        size_chr_of_holds hh hcomplete]
    have hcontent := after.content_ppuCell address
    rw [hcell] at hcontent
    refine ⟨hcontent, fun hl => ?_⟩
    have hrom : after.chr.bytes = chr := by
      rw [hfix.chrRom (hram.trans (chrIsRam_of_holds hh hl)), hchr, hh.chr, if_neg hl]
    rw [← hrom]
    exact hcontent
  · -- the upper window has the last bank, whatever has been written, so it shows what it did
    intro h₂ address ha
    have ha₈ : 0x8000 ≤ address := UInt16.le_trans (by decide) ha
    have hsize₀ : b.prg.size = banks * Cartridge.prgBankSize := hfix.prg ▸ hsize
    have hread₀ := getElem?_prgOffset ha₈ b
    have hread₁ := hread ha₈
    rw [h₂] at hr hread₁
    rw [prgOffset_mod hr hpos hsize₀ ha₈, shownPrgBank_uxrom, if_pos ha, ← hfix.prg,
      hbytes] at hread₀
    rw [shownPrgBank_uxrom, if_pos ha] at hread₁
    exact Option.some.inj (hread₁.symm.trans hread₀)

/-! ### An image with board 2 -/

/-- The image of a UxROM cartridge with one bank of program ROM and one of character ROM, all
zeros. -/
def blankUxrom : Array UInt8 :=
  #[0x4E, 0x45, 0x53, 0x1A, 1, 1, 0x20, 0, 0, 0, 0, 0, 0, 0, 0, 0] ++ Array.replicate 24576 0

/-- The image below is as long as it says: a header, a bank of program and one of characters. -/
theorem size_blankUxrom : blankUxrom.size = 24592 := by
  rw [blankUxrom, Array.size_append, Array.size_replicate]
  rfl

/-- Its header announces board 2. -/
theorem getD_blankUxrom :
    blankUxrom.getD 4 0 = 1 ∧ blankUxrom.getD 5 0 = 1 ∧ blankUxrom.getD 6 0 = 0x20 ∧
      blankUxrom.getD 7 0 = 0 := by
  refine ⟨?_, ?_, ?_, ?_⟩ <;> exact Cartridge.getD_append (by decide)

/-- So it is a complete image. -/
theorem complete_blankUxrom : Cartridge.Complete blankUxrom := by
  have hs := size_blankUxrom
  obtain ⟨h₄, h₅, h₆, -⟩ := getD_blankUxrom
  refine ⟨⟨by omega, ?_⟩, ?_⟩
  · rw [blankUxrom, Cartridge.extract_append (by decide)]
    rfl
  · rw [hs, Cartridge.chrEnd, Cartridge.prgEnd, Cartridge.trainerEnd, Cartridge.trainerLength,
      Cartridge.prgLength, Cartridge.chrLength, h₄, h₅, h₆]
    decide

/-- A bank that is not there is picked: in the lower window the first shows, and in the upper one
still the last. -/
theorem windows_show_image_blankUxrom :
    let uses := [.writeCpu 0x8000 5, .tick, .readCpu 0x8000]
    let prg := blankUxrom.extract (Cartridge.trainerEnd blankUxrom) (Cartridge.prgEnd blankUxrom)
    ∃ c b, Cartridge.parse blankUxrom = .ok c ∧ ofCartridge c = .ok b ∧ c.header.board = 2 ∧
      Cartridge.chrLength blankUxrom ≠ 0 ∧ 0x1FFF < 0x2000 ∧ (0x8000 : UInt16) ≤ 0x8001 ∧
      (0xC000 : UInt16) ≤ 0xC001 ∧
      shownPrgBank 2 1 (moments uses) 0x8001 = 0 ∧
        prg[1]? = some ((b.afterUses uses).readCpu 0x8001) ∧
      (b.afterUses uses).content (.chr 0x1FFF) = some ((b.afterUses uses).readPpu 0x1FFF) ∧
      (b.afterUses uses).readCpu 0xC001 = b.readCpu 0xC001 := by
  intro uses prg
  obtain ⟨h₄, h₅, h₆, h₇⟩ := getD_blankUxrom
  have hl : Cartridge.chrLength blankUxrom = 8192 := by rw [Cartridge.chrLength, h₅]; rfl
  have hs : chrSize blankUxrom = 8192 := by rw [chrSize, hl]; rfl
  have hbank : shownPrgBank 2 1 (moments uses) 0x8001 = 0 := Nat.mod_one _
  obtain ⟨c, hc, hh⟩ := complete_blankUxrom.parse
  have h₂ : c.header.board = 2 := by
    rw [hh.header, Cartridge.announced, h₆, h₇]
    rfl
  obtain ⟨b, hb⟩ : ∃ b, ofCartridge c = .ok b := by
    rw [ofCartridge, h₂]
    exact ⟨_, rfl⟩
  obtain ⟨hprg, hchr, hux⟩ := windows_show_image hc hb uses
  obtain ⟨-, hp⟩ := hprg 0x8001 (by decide)
  obtain ⟨hk, -⟩ := hchr 0x1FFF (by decide)
  rw [h₂, h₄, show max 1 (1 : UInt8).toNat = 1 from rfl, hbank] at hp
  rw [h₂, hs] at hk
  exact ⟨c, b, hc, hb, h₂, by rw [hl]; decide, by decide, by decide, by decide, hbank, hp, hk,
    hux h₂ 0xC001 (by decide)⟩

end Image

end Board
end Famicom
