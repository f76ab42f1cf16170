/-
# Transfers to object memory

A transfer reads the 256 bytes of a page in turn and writes each where the object address stands,
which goes on by one with every byte.  So it is a run of writes to the picture unit, of the bytes
that the page shows before, as long as no read on the way minds: memory, the bytes of a cartridge
and the addresses where nothing is wired can be read at any time, and show the same whatever is in
the picture unit (`Memory.copyToOam_eq`).

The object address wraps at the end of object memory, so 256 writes come round once: every cell is
written, none of them twice, and the address is where it was (`Ppu.getElem_foldl_writeOam`).
-/

import Famicom.Proofs.Board.Blank
import Famicom.Proofs.Memory.Access

namespace Famicom

namespace Ppu

/-- Each store to the object memory takes its address one further, round from the last cell to the
first. -/
theorem toNat_oamAddress_succ (p : Ppu) (v : UInt8) :
    (p.writeOam v).oamAddress.toNat = (p.oamAddress.toNat + 1) % 256 :=
  UInt8.toNat_add ..

/-- A cell of object memory after a byte has been written. -/
theorem getElem_writeOam (p : Ppu) (v : UInt8) {i : Nat} (hi : i < 256) :
    (p.writeOam v).oam[i] = if p.oamAddress.toNat = i then v else p.oam[i] := by
  simp only [writeOam, Vector.getElem_set]

/-- **What bytes written in turn reach**: object memory, and the address of its next byte. -/
theorem foldl_writeOam_eq (p : Ppu) (values : List UInt8) :
    ∃ oam, values.foldl writeOam p =
      { p with oam, oamAddress := p.oamAddress + UInt8.ofNat values.length } := by
  induction values generalizing p with
  | nil => exact ⟨p.oam, congrArg (fun oamAddress => { p with oamAddress }) (UInt8.add_zero _).symm⟩
  | cons v rest ih =>
    obtain ⟨oam, h⟩ := ih (p.writeOam v)
    have hn : p.oamAddress + 1 + UInt8.ofNat rest.length =
        p.oamAddress + UInt8.ofNat (v :: rest).length := by
      rw [List.length_cons, UInt8.ofNat_add, UInt8.add_assoc, UInt8.add_comm 1]
      rfl
    refine ⟨oam, ?_⟩
    rw [List.foldl_cons, h, ← hn]
    rfl

/-- **Where bytes written in turn come to stand**: the next one always one cell further, and behind
the last cell of object memory comes the first.  The other cells keep what they hold. -/
theorem getElem_foldl_writeOam {values : List UInt8} (h : values.length ≤ 256) (p : Ppu) {i : Nat}
    (hi : i < 256) :
    (values.foldl writeOam p).oam[(p.oamAddress.toNat + i) % 256] =
      values[i]?.getD p.oam[(p.oamAddress.toNat + i) % 256] := by
  have hp := p.oamAddress.toNat_lt
  induction values generalizing p i with
  | nil => rfl
  | cons v rest ih =>
    have hr : rest.length ≤ 255 := Nat.le_of_succ_le_succ h
    have hs := p.toNat_oamAddress_succ v
    have hlt := (p.writeOam v).oamAddress.toNat_lt
    cases i with
    | zero =>
      -- the cell of the first byte is the last one that the others would come to
      have hcell :
          (p.oamAddress.toNat + 0) % 256 = ((p.writeOam v).oamAddress.toNat + 255) % 256 := by
        omega
      have hself : p.oamAddress.toNat = ((p.writeOam v).oamAddress.toNat + 255) % 256 := by omega
      have hnone : rest[255]? = none := List.getElem?_eq_none hr
      simp only [List.foldl_cons, hcell]
      rw [ih (Nat.le_succ_of_le hr) (p.writeOam v) (by decide) hlt, hnone, getElem_writeOam,
        if_pos hself]
      rfl
    | succ i =>
      have hcell :
          (p.oamAddress.toNat + (i + 1)) % 256 = ((p.writeOam v).oamAddress.toNat + i) % 256 := by
        omega
      have hne : p.oamAddress.toNat ≠ ((p.writeOam v).oamAddress.toNat + i) % 256 := by omega
      simp only [List.foldl_cons, hcell, List.getElem?_cons_succ]
      rw [ih (Nat.le_succ_of_le hr) (p.writeOam v) (Nat.lt_of_succ_lt hi) hlt, getElem_writeOam,
        if_neg hne]

end Ppu

namespace Memory

/-- Whether an address reaches neither the picture unit nor the registers behind it: memory, or the
cartridge. -/
def Inert (address : UInt16) : Prop := address < 0x2000 ∨ 0x4020 ≤ address

/-- **A read of memory or of the cartridge** changes nothing, and shows the same whatever is in the
picture unit. -/
theorem Inert.read {address : UInt16} (h : Inert address) (m : Memory) (ppu : Ppu) :
    ({ m with ppu } : Memory).read address = ((m.read address).1, { m with ppu }) := by
  unfold Memory.read
  rcases h with h | h
  · simp only [if_pos h]
  · have h₁ : ¬ address < 0x2000 := UInt16.not_lt.2 (UInt16.le_trans (by decide) h)
    have h₂ : ¬ address < 0x4000 := UInt16.not_lt.2 (UInt16.le_trans (by decide) h)
    simp only [if_neg h₁, if_neg h₂, if_neg (UInt16.not_lt.2 h)]

/-- **A transfer from such addresses** writes the bytes that they show, one after the other. -/
theorem copyToOam_eq {addresses : List UInt16} (h : ∀ address ∈ addresses, Inert address)
    (m : Memory) : m.copyToOam addresses =
      { m with ppu :=
        (addresses.map fun address => (m.read address).1).foldl Ppu.writeOam m.ppu } := by
  suffices ∀ ppu : Ppu, ({ m with ppu } : Memory).copyToOam addresses =
      { m with ppu :=
        (addresses.map fun address => (m.read address).1).foldl Ppu.writeOam ppu } from
    this m.ppu
  intro ppu
  induction addresses generalizing ppu with
  | nil => rfl
  | cons address rest ih =>
    rw [copyToOam, (h address (List.mem_cons_self ..)).read]
    exact ih (fun a ha => h a (List.mem_cons_of_mem _ ha)) (ppu.writeOam (m.read address).1)

/-- The addresses of a page. -/
theorem pageAddresses_eq (page : UInt8) :
    pageAddresses page = (List.range 256).map fun i => UInt16.ofNat (256 * page.toNat + i) := by
  refine List.map_congr_left fun i hi => UInt16.toNat_inj.1 ?_
  have hp := page.toNat_lt
  have hi : i < 256 := List.mem_range.1 hi
  rw [Word.toNat_ofBytes, UInt8.toNat_ofNat', UInt16.toNat_ofNat', Nat.mod_eq_of_lt (by omega),
    Nat.mod_eq_of_lt (by omega)]

/-- A page that holds no register is memory or belongs to the cartridge. -/
theorem inert_of_page {page : UInt8} (h : page < 0x20 ∨ 0x40 < page) {i : Nat} (hi : i < 256) :
    Inert (UInt16.ofNat (256 * page.toNat + i)) := by
  have hp := page.toNat_lt
  have hn : (UInt16.ofNat (256 * page.toNat + i)).toNat = 256 * page.toNat + i := by
    rw [UInt16.toNat_ofNat', Nat.mod_eq_of_lt (by omega)]
  unfold Inert
  rw [UInt16.lt_iff_toNat_lt, UInt16.le_iff_toNat_le, hn]
  rw [UInt8.lt_iff_toNat_lt, UInt8.lt_iff_toNat_lt] at h
  change page.toNat < 32 ∨ 64 < page.toNat at h
  change 256 * page.toNat + i < 8192 ∨ 16416 ≤ 256 * page.toNat + i
  omega

/-- **A transfer copies a page**, from the cell on at which the object address stands and round the
end of object memory, if the page holds no registers.  The object address comes back to where it
was, 514 cycles are owed for the transfer, and nothing else changes. -/
theorem transfer_copies_page (m : Memory) (page : UInt8) (h : page < 0x20 ∨ 0x40 < page) :
    ∃ oam : Vector UInt8 256,
      m.write 0x4014 page =
        { m with ppu := { m.ppu with oam }, pendingStall := m.pendingStall + 514 } ∧
      ∀ i < 256, oam[(m.ppu.oamAddress.toNat + i) % 256] =
        (m.read (UInt16.ofNat (256 * page.toNat + i))).1 := by
  -- reading the page changes nothing, so the copy is that of the bytes that were in it
  have hinert : ∀ address ∈ pageAddresses page, Inert address := by
    rw [pageAddresses_eq, List.forall_mem_map]
    exact fun i hi => inert_of_page h (List.mem_range.1 hi)
  have hlen : ((pageAddresses page).map fun address => (m.read address).1).length = 256 := by
    rw [List.length_map, length_pageAddresses]
  have hcopy := copyToOam_eq hinert m
  have hcell := fun i hi => m.ppu.getElem_foldl_writeOam (Nat.le_of_eq hlen) (i := i) hi
  obtain ⟨oam, heq⟩ :=
    m.ppu.foldl_writeOam_eq ((pageAddresses page).map fun address => (m.read address).1)
  rw [hlen] at heq
  rw [heq] at hcopy hcell
  refine ⟨oam, ?_, fun i hi => (hcell i hi).trans ?_⟩
  · -- the address has gone round once
    have hwrap : m.ppu.oamAddress + UInt8.ofNat 256 = m.ppu.oamAddress := UInt8.add_zero _
    rw [hwrap] at hcopy
    rw [write_oamDma, oamDma, hcopy]
    rfl
  · rw [pageAddresses_eq, List.map_map, List.getElem?_map, List.getElem?_range hi]
    rfl

/-- A page of memory through one of its other addresses, with the object address two cells before
the end of object memory: the fourth byte of the page comes to stand in the second cell. -/
theorem transfer_copies_page_mirrored :
    let m := ((Memory.ofBoard .blank Apu.defaultRate).write 0x0203 0x55).write 0x2003 0xFE
    ((0x0A : UInt8) < 0x20 ∨ 0x40 < (0x0A : UInt8)) ∧ (m.write 0x4014 0x0A).ppu.oam[1] = 0x55 ∧
      (m.write 0x4014 0x0A).ppu.oamAddress = 0xFE ∧ (m.write 0x4014 0x0A).pendingStall = 514 := by
  intro m
  obtain ⟨oam, heq, hcell⟩ := transfer_copies_page m 0x0A (by decide)
  have hplace : m.ppu.oamAddress = 0xFE := rfl
  have hbyte := (hcell 3 (by decide)).trans (Vector.getElem_set_self _)
  simp only [hplace] at hbyte
  rw [heq]
  exact ⟨by decide, hbyte, rfl, rfl⟩

end Memory
end Famicom
