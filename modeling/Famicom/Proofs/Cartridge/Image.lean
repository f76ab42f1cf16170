/-
# Which images are read

An image announces three parts behind its header, and how long they are is in three bytes of the
header (`Cartridge.trainerLength`, `Cartridge.prgLength`, `Cartridge.chrLength`).  It is read if
they are all there (`Cartridge.Complete`), and then a cartridge holds the bytes where the parts lie
and nothing of what follows them (`Cartridge.Holds`).  If not, the complaint is about the first
part that ends behind the end of the image.
-/

import Famicom.Cartridge.Image

namespace Famicom
namespace Cartridge

/-- The length of the trainer that an image announces. -/
def trainerLength (image : Array UInt8) : Nat := if image.getD 6 0 &&& 0x04 = 0 then 0 else 512

/-- The length of the program ROM that an image announces. -/
def prgLength (image : Array UInt8) : Nat := 16384 * max 1 (image.getD 4 0).toNat

/-- The length of the character ROM that an image announces. -/
def chrLength (image : Array UInt8) : Nat := 8192 * (image.getD 5 0).toNat

/-- Where the trainer of an image ends. -/
def trainerEnd (image : Array UInt8) : Nat := 16 + trainerLength image

/-- Where the program ROM of an image ends. -/
def prgEnd (image : Array UInt8) : Nat := trainerEnd image + prgLength image

/-- Where the character ROM of an image ends. -/
def chrEnd (image : Array UInt8) : Nat := prgEnd image + chrLength image

/-- An image with a header. -/
structure Marked (image : Array UInt8) : Prop where
  size : 16 ≤ image.size
  mark : image.extract 0 4 = #[0x4E, 0x45, 0x53, 0x1A]

/-- An image with all the parts that it announces. -/
structure Complete (image : Array UInt8) : Prop extends Marked image where
  fits : chrEnd image ≤ image.size

/-- The header that an image announces. -/
def announced (image : Array UInt8) : Header :=
  ⟨image.getD 4 0, image.getD 5 0, image.getD 6 0, image.getD 7 0⟩

/-- A cartridge that holds the parts of an image. -/
structure Holds (c : Cartridge) (image : Array UInt8) : Prop where
  header : c.header = announced image
  trainer : c.trainer =
    if trainerLength image = 0 then none else some (image.extract 16 (trainerEnd image))
  prg : c.prg.bytes = image.extract (trainerEnd image) (prgEnd image)
  chr : c.chr.bytes =
    if chrLength image = 0 then Array.replicate 8192 0
    else image.extract (prgEnd image) (chrEnd image)

/-! ### Part by part

For each part there are two cases: it lies within the image and the chip is filled, or it does not
and the image is refused with the end of that part. -/

variable {image : Array UInt8} {c d : Cartridge}

/-- An image that is too short for a header is refused for it, with sixteen bytes as what is
expected; -/
theorem parse_header_of_short (h : image.size < 16) :
    Header.parse image = .error (.truncated 16 image.size) :=
  dif_pos h

/-- one that is long enough is refused if it does not open with the mark; -/
theorem parse_header_of_unmarked (hs : ¬image.size < Header.size)
    (hm : image.extract 0 4 ≠ Header.mark) : Header.parse image = .error .unmarked := by
  unfold Header.parse
  rw [dif_neg hs]
  exact if_neg hm

/-- and else its header is what it announces. -/
theorem Marked.parse_header (h : Marked image) : Header.parse image = .ok (announced image) := by
  have hs : ¬image.size < Header.size := Nat.not_lt.2 h.size
  have hm : image.extract 0 4 = Header.mark := h.mark
  have hg (i : Nat) (hi : i < image.size) : image[i] = image.getD i 0 := by
    rw [Array.getD_eq_getD_getElem?, Array.getElem?_eq_getElem hi, Option.getD_some]
  unfold Header.parse
  rw [dif_neg hs]
  dsimp only
  rw [if_pos hm, hg, hg, hg, hg]
  rfl

/-- Whether there is a trainer is in one bit of the header. -/
theorem trainer_cases (image : Array UInt8) :
    ((announced image).hasTrainer = false ∧ trainerLength image = 0) ∨
      ((announced image).hasTrainer = true ∧ trainerLength image = 512) := by
  by_cases h : image.getD 6 0 &&& 0x04 = 0
  · exact .inl ⟨bne_eq_false_iff_eq.2 h, if_pos h⟩
  · exact .inr ⟨bne_iff_ne.2 h, if_neg h⟩

/-- The program ROM is looked for where the trainer ends, -/
theorem prgOffset_announced (image : Array UInt8) :
    prgOffset (announced image) = trainerEnd image := by
  unfold prgOffset trainerEnd
  obtain ⟨h, hl⟩ | ⟨h, hl⟩ := trainer_cases image
  · rw [h, hl]
    rfl
  · rw [h, hl]
    rfl

/-- it has the length that is announced, -/
theorem prgSize_announced (image : Array UInt8) : prgSize (announced image) = prgLength image := by
  show max (image.getD 4 0).toNat 1 * 16384 = _
  rw [prgLength, Nat.mul_comm, Nat.max_comm]

/-- and so has the character ROM. -/
theorem chrSize_announced (image : Array UInt8) :
    (announced image).chrBanks * chrBankSize = chrLength image :=
  Nat.mul_comm _ _

/-- A trainer is read if it is there, or if none is announced. -/
theorem trainerOf_cases (hs : 16 ≤ image.size) :
    (trainerEnd image ≤ image.size ∧ trainerOf (announced image) image =
        .ok (if trainerLength image = 0 then none
          else some (image.extract 16 (trainerEnd image)))) ∨
      (image.size < trainerEnd image ∧ trainerOf (announced image) image =
        .error (.truncated (trainerEnd image) image.size)) := by
  unfold trainerOf trainerEnd
  obtain ⟨h, hl⟩ | ⟨h, hl⟩ := trainer_cases image
  · rw [h, hl]
    exact .inl ⟨hs, rfl⟩
  · rw [h, hl, if_pos rfl]
    by_cases hf : 16 + 512 ≤ image.size
    · exact .inl ⟨hf, if_pos hf⟩
    · exact .inr ⟨Nat.lt_of_not_le hf, if_neg hf⟩

/-- The bytes of a chip are read if they are there. -/
theorem chipAt_cases (image : Array UInt8) {offset length first last : Nat} (ho : offset = first)
    (hl : first + length = last) (pos : 0 < length) :
    (last ≤ image.size ∧ ∃ chip, chipAt image offset length pos = .ok chip ∧
        chip.bytes = image.extract first last) ∨
      (image.size < last ∧
        chipAt image offset length pos = .error (.truncated last image.size)) := by
  subst ho hl
  unfold chipAt
  by_cases hf : offset + length ≤ image.size
  · rw [dif_pos hf]
    exact .inl ⟨hf, _, rfl, rfl⟩
  · rw [dif_neg hf]
    exact .inr ⟨Nat.lt_of_not_le hf, rfl⟩

/-- Character ROM is read if it is there; if none is announced there is RAM, and nothing to miss. -/
theorem chrOf_cases (hp : prgEnd image ≤ image.size) :
    (chrEnd image ≤ image.size ∧ ∃ chip, chrOf (announced image) image = .ok chip ∧
        chip.bytes = if chrLength image = 0 then Array.replicate 8192 0
          else image.extract (prgEnd image) (chrEnd image)) ∨
      (image.size < chrEnd image ∧ chrOf (announced image) image =
        .error (.truncated (chrEnd image) image.size)) := by
  have ho : prgOffset (announced image) + prgSize (announced image) = prgEnd image := by
    rw [prgOffset_announced, prgSize_announced, prgEnd]
  have hl : prgEnd image + (announced image).chrBanks * chrBankSize = chrEnd image := by
    rw [chrSize_announced, chrEnd]
  unfold chrOf
  by_cases h : (announced image).chrBanks = 0
  · have hz : chrLength image = 0 := by rw [← chrSize_announced, h, Nat.zero_mul]
    rw [dif_pos h, chrEnd, hz, if_pos rfl]
    exact .inl ⟨hp, _, rfl, rfl⟩
  · have hz : chrLength image ≠ 0 := by
      rw [← chrSize_announced]
      exact Nat.mul_ne_zero h (by decide)
    rw [dif_neg h, if_neg hz]
    exact chipAt_cases image ho hl _

/-- **What becomes of an image with a header**: one of its parts does not end in it, and the first
of these is complained about, or a cartridge holds them all. -/
theorem Marked.parse_cases (h : Marked image) :
    (image.size < trainerEnd image ∧
        parse image = .error (.truncated (trainerEnd image) image.size)) ∨
      (trainerEnd image ≤ image.size ∧ image.size < prgEnd image ∧
        parse image = .error (.truncated (prgEnd image) image.size)) ∨
      (prgEnd image ≤ image.size ∧ image.size < chrEnd image ∧
        parse image = .error (.truncated (chrEnd image) image.size)) ∨
      (chrEnd image ≤ image.size ∧ ∃ c, parse image = .ok c ∧ c.Holds image) := by
  have hl : trainerEnd image + prgSize (announced image) = prgEnd image := by
    rw [prgSize_announced, prgEnd]
  have hh := h.parse_header
  -- part by part: each ends within the image, or is the first that does not
  obtain ⟨ht, et⟩ | ⟨ht, et⟩ := trainerOf_cases h.size
  · obtain ⟨hp, prg, ep, bp⟩ | ⟨hp, ep⟩ :=
      chipAt_cases image (prgOffset_announced image) hl (prgSize_pos _)
    · obtain ⟨hc, chr, ec, bc⟩ | ⟨hc, ec⟩ := chrOf_cases hp
      · refine .inr (.inr (.inr ⟨hc, { header := announced image, trainer := _, prg, chr }, ?_,
          rfl, rfl, bp, bc⟩))
        simp only [parse, hh, et, ep, ec, bind, Except.bind]
        rfl
      · refine .inr (.inr (.inl ⟨hp, hc, ?_⟩))
        simp only [parse, hh, et, ep, ec, bind, Except.bind]
    · refine .inr (.inl ⟨ht, hp, ?_⟩)
      simp only [parse, hh, et, ep, bind, Except.bind]
  · refine .inl ⟨ht, ?_⟩
    simp only [parse, hh, et, bind, Except.bind]

/-! ### The image as a whole -/

/-- The parts follow each other: program ROM comes behind the trainer, -/
theorem trainerEnd_le_prgEnd (image : Array UInt8) : trainerEnd image ≤ prgEnd image :=
  Nat.le_add_right ..

/-- and character ROM behind it. -/
theorem prgEnd_le_chrEnd (image : Array UInt8) : prgEnd image ≤ chrEnd image :=
  Nat.le_add_right ..

/-- A complete image is read. -/
theorem Complete.parse (h : Complete image) : ∃ c, parse image = .ok c ∧ c.Holds image := by
  have hf := h.fits
  have htp := trainerEnd_le_prgEnd image
  have hpc := prgEnd_le_chrEnd image
  obtain ⟨ht, -⟩ | ⟨-, hp, -⟩ | ⟨-, hc, -⟩ | ⟨-, hr⟩ := h.parse_cases
  · omega
  · omega
  · omega
  · exact hr

/-- No image is read that is not complete. -/
theorem complete_of_parse (h : Cartridge.parse image = .ok c) : Complete image := by
  by_cases hs : image.size < 16
  · rw [Cartridge.parse, parse_header_of_short hs] at h
    cases h
  by_cases hm : image.extract 0 4 = Header.mark
  · have hk : Marked image := ⟨Nat.le_of_not_lt hs, hm⟩
    obtain ⟨-, he⟩ | ⟨-, -, he⟩ | ⟨-, -, he⟩ | ⟨hf, -⟩ := hk.parse_cases
    · rw [he] at h
      cases h
    · rw [he] at h
      cases h
    · rw [he] at h
      cases h
    · exact ⟨hk, hf⟩
  · rw [Cartridge.parse, parse_header_of_unmarked hs hm] at h
    cases h

/-- An image determines what is held of it. -/
theorem Holds.unique (h : c.Holds image) (k : d.Holds image) : c = d := by
  have chip_eq {x y : Chip} (hxy : x.bytes = y.bytes) : x = y := by
    cases x
    cases y
    cases hxy
    rfl
  obtain ⟨header, trainer, prg, chr⟩ := c
  obtain ⟨header', trainer', prg', chr'⟩ := d
  obtain rfl : header = header' := h.header.trans k.header.symm
  obtain rfl : trainer = trainer' := h.trainer.trans k.trainer.symm
  obtain rfl : prg = prg' := chip_eq (h.prg.trans k.prg.symm)
  obtain rfl : chr = chr' := chip_eq (h.chr.trans k.chr.symm)
  rfl

section Append

variable {rest : Array UInt8}

/-- What follows an image does not change its bytes, -/
theorem getD_append {i : Nat} (hi : i < image.size) :
    (image ++ rest).getD i 0 = image.getD i 0 := by
  rw [Array.getD_eq_getD_getElem?, Array.getD_eq_getD_getElem?, Array.getElem?_append_left hi]

/-- nor its parts. -/
theorem extract_append {i j : Nat} (hj : j ≤ image.size) :
    (image ++ rest).extract i j = image.extract i j := by
  rw [Array.extract_append]
  simp [Nat.sub_eq_zero_of_le hj]

/-- What an image announces is in its header. -/
theorem Marked.append (h : Marked image) (rest : Array UInt8) :
    Marked (image ++ rest) ∧ announced (image ++ rest) = announced image ∧
      trainerLength (image ++ rest) = trainerLength image ∧
      prgLength (image ++ rest) = prgLength image ∧
      chrLength (image ++ rest) = chrLength image := by
  have hs := h.size
  have h₄ : (image ++ rest).getD 4 0 = image.getD 4 0 := getD_append (by omega)
  have h₅ : (image ++ rest).getD 5 0 = image.getD 5 0 := getD_append (by omega)
  have h₆ : (image ++ rest).getD 6 0 = image.getD 6 0 := getD_append (by omega)
  have h₇ : (image ++ rest).getD 7 0 = image.getD 7 0 := getD_append (by omega)
  refine ⟨⟨?_, ?_⟩, ?_, ?_, ?_, ?_⟩
  · rw [Array.size_append]
    omega
  · rw [extract_append (by omega), h.mark]
  · rw [announced, h₄, h₅, h₆, h₇, announced]
  · rw [trainerLength, h₆, trainerLength]
  · rw [prgLength, h₄, prgLength]
  · rw [chrLength, h₅, chrLength]

/-- What follows a complete image is not looked at. -/
theorem Complete.holds_append (h : Complete image) (rest : Array UInt8) :
    Complete (image ++ rest) ∧ ∀ c, Holds c (image ++ rest) → c.Holds image := by
  obtain ⟨hm, ha, ht, hp, hc⟩ := h.append rest
  have hf := h.fits
  have htp := trainerEnd_le_prgEnd image
  have hpc := prgEnd_le_chrEnd image
  have et : trainerEnd (image ++ rest) = trainerEnd image := by rw [trainerEnd, ht, trainerEnd]
  have ep : prgEnd (image ++ rest) = prgEnd image := by rw [prgEnd, et, hp, prgEnd]
  have ec : chrEnd (image ++ rest) = chrEnd image := by rw [chrEnd, ep, hc, chrEnd]
  refine ⟨⟨hm, ?_⟩, fun c k => ⟨?_, ?_, ?_, ?_⟩⟩
  · rw [ec, Array.size_append]
    omega
  · rw [k.header, ha]
  · rw [k.trainer, ht, et, extract_append (by omega)]
  · rw [k.prg, et, ep, extract_append (by omega)]
  · rw [k.chr, hc, ep, ec, extract_append hf]

end Append

/-- **Exactly the complete images are read.**  An image that is too short for a header is refused,
then one that does not begin with the mark, then one in which a part does not end: the complaint
names the end of the first such part, and the size of the image.  In the cartridge that is read
from a complete image every part is what lies in its place, whatever may follow the last. -/
theorem parse_iff_complete (image : Array UInt8) :
    ((∃ c, parse image = .ok c) ↔ Complete image) ∧
      if image.size < 16 then parse image = .error (.truncated 16 image.size)
      else if image.extract 0 4 ≠ #[0x4E, 0x45, 0x53, 0x1A] then parse image = .error .unmarked
      else
        match [trainerEnd image, prgEnd image, chrEnd image].find? (image.size < ·) with
        | some last => parse image = .error (.truncated last image.size)
        | none => ∃ c, c.Holds image ∧ ∀ rest, parse (image ++ rest) = .ok c := by
  refine ⟨⟨fun ⟨c, h⟩ => complete_of_parse h, fun h => ?_⟩, ?_⟩
  · obtain ⟨c, hc, -⟩ := h.parse
    exact ⟨c, hc⟩
  split
  · rename_i hs
    rw [parse, parse_header_of_short hs]
    rfl
  rename_i hs
  split
  · rename_i hm
    rw [parse, parse_header_of_unmarked hs hm]
    rfl
  rename_i hm
  have hk : Marked image := ⟨Nat.le_of_not_lt hs, Decidable.not_not.1 hm⟩
  have htp := trainerEnd_le_prgEnd image
  have hpc := prgEnd_le_chrEnd image
  obtain ⟨ht, he⟩ | ⟨ht, hp, he⟩ | ⟨hp, hc, he⟩ | ⟨hc, c, he, hh⟩ := hk.parse_cases
  · rw [List.find?_cons_of_pos (by simpa using ht)]
    exact he
  · rw [List.find?_cons_of_neg (by simpa using ht), List.find?_cons_of_pos (by simpa using hp)]
    exact he
  · have ht := Nat.le_trans htp hp
    rw [List.find?_cons_of_neg (by simpa using ht), List.find?_cons_of_neg (by simpa using hp),
      List.find?_cons_of_pos (by simpa using hc)]
    exact he
  · have hp := Nat.le_trans hpc hc
    have ht := Nat.le_trans htp hp
    rw [List.find?_cons_of_neg (by simpa using ht), List.find?_cons_of_neg (by simpa using hp),
      List.find?_cons_of_neg (by simpa using hc), List.find?_nil]
    refine ⟨c, hh, fun rest => ?_⟩
    -- what is read from the longer image is held of this one too
    obtain ⟨hr, hi⟩ := (⟨hk, hc⟩ : Complete image).holds_append rest
    obtain ⟨d, hd, hdh⟩ := hr.parse
    rw [hd, hh.unique (hi d hdh)]

end Cartridge
end Famicom
