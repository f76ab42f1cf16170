/-
# The bytes of a picture

Three bytes have room for 24 bits, and a pixel is a word of 32.  For a list of any words the bytes
keep the lower 24 bits of each and nothing else (`CommandLine.ofThrees_rgbBytes`).

On the screen this loses nothing.  Only the dot that puts a line there changes it, and it takes the
colours of the line from the table of colours, in which no number needs more than 24 bits
(`Ppu.Reachable.screen_lt`).  So two screens that differ have different bytes.
-/

import Famicom.CommandLine.Report
import Famicom.Proofs.Ppu.Screen

namespace Famicom

/-! ### Bytes in threes -/

namespace CommandLine

/-- Bytes in threes, each three as one number, red in front. -/
def ofThrees : List UInt8 → List Nat
  | red :: green :: blue :: rest =>
    (red.toNat * 65536 + green.toNat * 256 + blue.toNat) :: ofThrees rest
  | _ => []

/-- The bytes of a row of pixels are those of the first, red in front, and those of the rest. -/
theorem rgbBytes_cons (pixel : UInt32) (pixels : List UInt32) :
    rgbBytes (pixel :: pixels) =
      (pixel >>> 16).toUInt8 :: (pixel >>> 8).toUInt8 :: pixel.toUInt8 :: rgbBytes pixels := rfl

/-- Three bytes for each pixel. -/
theorem length_rgbBytes (pixels : List UInt32) : (rgbBytes pixels).length = 3 * pixels.length := by
  induction pixels with
  | nil => rfl
  | cons pixel pixels ih =>
    rw [rgbBytes_cons, List.length_cons, List.length_cons, List.length_cons, List.length_cons, ih]
    omega

/-- Red comes first; the upper byte of a colour is none of them. -/
example : rgbBytes [0x010203, 0xFF040506] = [1, 2, 3, 4, 5, 6] := by decide

/-- A byte of a word. -/
theorem toNat_toUInt8_shiftRight (pixel : UInt32) {k : UInt32} (hk : k.toNat < 32) :
    (pixel >>> k).toUInt8.toNat = pixel.toNat / 2 ^ k.toNat % 256 := by
  rw [UInt32.toNat_toUInt8, UInt32.toNat_shiftRight, Nat.mod_eq_of_lt hk, Nat.shiftRight_eq_div_pow]

/-- **The bytes keep the lower 24 bits of each pixel**, in order. -/
theorem ofThrees_rgbBytes (pixels : List UInt32) :
    ofThrees (rgbBytes pixels) = pixels.map fun pixel => pixel.toNat % 2 ^ 24 := by
  induction pixels with
  | nil => rfl
  | cons pixel pixels ih =>
    have red : (pixel >>> 16).toUInt8.toNat = pixel.toNat / 2 ^ 16 % 256 :=
      toNat_toUInt8_shiftRight pixel (by decide)
    have green : (pixel >>> 8).toUInt8.toNat = pixel.toNat / 2 ^ 8 % 256 :=
      toNat_toUInt8_shiftRight pixel (by decide)
    have blue : pixel.toUInt8.toNat = pixel.toNat % 256 := UInt32.toNat_toUInt8 pixel
    rw [rgbBytes_cons, ofThrees, ih, List.map_cons, red, green, blue]
    congr 1
    omega

/-- Bytes that are left over make no colour. -/
example : ofThrees [0, 1, 0, 0, 0, 2, 9] = [256, 2] := by decide

/-- Pixels of 24 bits can be told by their bytes. -/
theorem eq_of_rgbBytes_eq {pixels pixels' : List UInt32} (h : ∀ c ∈ pixels, c.toNat < 2 ^ 24)
    (h' : ∀ c ∈ pixels', c.toNat < 2 ^ 24) (he : rgbBytes pixels = rgbBytes pixels') :
    pixels = pixels' := by
  have numbers {l : List UInt32} (hl : ∀ c ∈ l, c.toNat < 2 ^ 24) :
      ofThrees (rgbBytes l) = l.map UInt32.toNat := by
    rw [ofThrees_rgbBytes]
    exact List.map_congr_left fun c hc => Nat.mod_eq_of_lt (hl c hc)
  have hn : pixels.map UInt32.toNat = pixels'.map UInt32.toNat := by
    rw [← numbers h, ← numbers h', he]
  exact List.map_injective_iff.2 (fun _ _ => UInt32.toNat_inj.1) hn

end CommandLine

/-! ### The screen -/

namespace Ppu

/-- The pixels of the screen, row after row. -/
def pixels (p : Ppu) : List UInt32 := p.frame.flatten.toList

/-- The screen has 240 rows of 256 pixels. -/
theorem length_pixels (p : Ppu) : p.pixels.length = 61440 := Vector.length_toList

/-- A pixel of the screen is one of a row. -/
theorem mem_pixels {p : Ppu} {c : UInt32} : c ∈ p.pixels ↔ ∃ row ∈ p.frame, c ∈ row := by
  rw [pixels, Vector.mem_toList_iff, Vector.mem_flatten]

/-- Screens with the same pixels are the same. -/
theorem frame_eq_of_pixels_eq {p q : Ppu} (h : p.pixels = q.pixels) : p.frame = q.frame := by
  have hf : p.frame.flatten = q.frame.flatten := Vector.toList_inj.1 h
  ext y hy x hx
  have hi : y * 256 + x < 240 * 256 := by omega
  have hd : (y * 256 + x) / 256 = y := by omega
  have hm : (y * 256 + x) % 256 = x := by omega
  have hp : p.frame.flatten[y * 256 + x] = p.frame[(y * 256 + x) / 256][(y * 256 + x) % 256] :=
    Vector.getElem_flatten hi
  have hq : q.frame.flatten[y * 256 + x] = q.frame[(y * 256 + x) / 256][(y * 256 + x) % 256] :=
    Vector.getElem_flatten hi
  simp only [hd, hm] at hp hq
  rw [← hp, ← hq]
  simp only [hf]

/-- No colour of the table needs more than three bytes. -/
theorem colours_lt : ∀ c ∈ colours, c.toNat < 2 ^ 24 := by
  have all : colours.toList.all (fun c => decide (c.toNat < 2 ^ 24)) = true := by decide
  exact fun c hc => of_decide_eq_true (List.all_eq_true.1 all c (Vector.mem_toList_iff.2 hc))

/-- **A call keeps the screen within 24 bits.** -/
theorem screen_lt_call {p : Ppu} (h : ∀ row ∈ p.frame, ∀ c ∈ row, c.toNat < 2 ^ 24) (x : Call) :
    ∀ row ∈ (p.call x).frame, ∀ c ∈ row, c.toNat < 2 ^ 24 := by
  cases hs : p.shows? x with
  | none =>
    rw [frame_call p x hs]
    exact h
  | some y =>
    obtain ⟨hy, hf⟩ := frame_call_of_shows? hs
    rw [hf]
    intro row hr c hc
    obtain hr | rfl := Vector.mem_or_eq_of_mem_set hr
    · exact h row hr c hc
    · obtain ⟨pixel, -, rfl⟩ := Vector.mem_map.1 hc
      exact colours_lt _ (Vector.getElem_mem _)

/-- **Every screen that can be come to is one of pixels of 24 bits.** -/
theorem Reachable.screen_lt {p : Ppu} (h : p.Reachable) :
    ∀ row ∈ p.frame, ∀ c ∈ row, c.toNat < 2 ^ 24 := by
  induction h with
  | initial =>
    intro row hr c hc
    obtain ⟨-, rfl⟩ := Vector.mem_replicate.1 hr
    obtain ⟨-, rfl⟩ := Vector.mem_replicate.1 hc
    decide
  | tick board _ ih => exact screen_lt_call ih (.tick board)
  | read board register _ ih => exact screen_lt_call ih (.read board register)
  | write board register v _ ih => exact screen_lt_call ih (.write board register v)
  | writeOam v _ ih => exact screen_lt_call ih (.writeOam v)
  | takeNmi _ ih => exact screen_lt_call ih .takeNmi
  | clearFrameReady _ ih => exact screen_lt_call ih .clearFrameReady

/-- So none on the screen does. -/
theorem Reachable.pixels_lt {p : Ppu} (h : p.Reachable) : ∀ c ∈ p.pixels, c.toNat < 2 ^ 24 := by
  intro c hc
  obtain ⟨row, hr, hc⟩ := mem_pixels.1 hc
  exact h.screen_lt row hr c hc

/-- A palette memory that has not been written shows one colour. -/
theorem colour_initial (grayscale : Bool) (pixel : UInt8) :
    ({} : Palette).colour grayscale pixel = 0x7C7C7C := by
  have hr : ({} : Palette).read pixel.toNat = 0 := Vector.getElem_replicate ..
  simp only [Palette.colour, hr]
  cases grayscale <;> rfl

end Ppu

/-! ### Pictures of the screen -/

namespace CommandLine

/-- **The bytes of a picture lose nothing.**  Of any pixels they are three for each, and put
together again in threes they are the pixels without what is above 24 bits.  On a screen that can
be come to, a reset leading back to the first of them, there is nothing above 24 bits, so two such
screens have the same bytes exactly when they are the same. -/
theorem pictures_are_lossless :
    (∀ pixels : List UInt32, (rgbBytes pixels).length = 3 * pixels.length ∧
      ofThrees (rgbBytes pixels) = pixels.map fun pixel => pixel.toNat % 2 ^ 24) ∧
    (∀ p : Ppu, p.Reachable → p.pixels.length = 61440 ∧ ∀ c ∈ p.pixels, c.toNat < 2 ^ 24) ∧
    (∀ p q : Ppu, p.Reachable → q.Reachable →
      (rgbBytes p.pixels = rgbBytes q.pixels ↔ p.frame = q.frame)) := by
  refine ⟨fun pixels => ⟨length_rgbBytes pixels, ofThrees_rgbBytes pixels⟩,
    fun p hp => ⟨p.length_pixels, hp.pixels_lt⟩, fun p q hp hq => ⟨fun h => ?_, fun h => ?_⟩⟩
  · exact Ppu.frame_eq_of_pixels_eq (eq_of_rgbBytes_eq hp.pixels_lt hq.pixels_lt h)
  · rw [Ppu.pixels, Ppu.pixels, h]

/-- The screen is black at first.  After 257 dots the first line is on it, in the colour of the
backdrop, and so its bytes are others. -/
theorem pictures_are_lossless_line :
    let p : Ppu := {}
    let q : Ppu := (fun p => p.tick .blank)^[257] {}
    p.Reachable ∧ q.Reachable ∧ (q.pixels.length = 61440 ∧ ∀ c ∈ q.pixels, c.toNat < 2 ^ 24) ∧
      0x7C7C7C ∉ p.pixels ∧ 0x7C7C7C ∈ q.pixels ∧ rgbBytes p.pixels ≠ rgbBytes q.pixels := by
  intro p q
  let last : Ppu := (fun p => p.tick .blank)^[256] {}
  have hp : p.Reachable := .initial
  have hq : q.Reachable := hp.iterate_tick .blank 257
  have hl : Ppu.Stroke.place ⟨last, .blank⟩ = (0, 256) :=
    Ppu.place_iterate_tick rfl .blank (by decide)
  obtain ⟨hline, hdot⟩ := Prod.mk.inj hl
  have hs : last.raster.row? = some 0 := Ppu.Raster.row?_eq_some.2 ⟨hline ▸ by decide, hdot, hline⟩
  -- the picture is black at first, and the first line brings a colour into it
  have black : 0x7C7C7C ∉ p.pixels := by
    rw [Ppu.mem_pixels]
    rintro ⟨row, hr, hc⟩
    obtain ⟨-, rfl⟩ := Vector.mem_replicate.1 hr
    exact absurd (Vector.mem_replicate.1 hc).2 (by decide)
  have shown : 0x7C7C7C ∈ q.pixels := by
    have ht : q = last.tick .blank := Function.iterate_succ_apply' ..
    have hc : last.palette = {} := Ppu.palette_iterate_tick {} .blank 256
    obtain ⟨hy, hf⟩ := Ppu.frame_tick hs .blank
    rw [ht, Ppu.mem_pixels, hf, hc]
    refine ⟨_, Vector.mem_set hy,
      Vector.mem_map.2 ⟨_, Vector.getElem_mem (Nat.zero_lt_succ 255), ?_⟩⟩
    exact Ppu.colour_initial ..
  obtain ⟨-, bounded, distinct⟩ := pictures_are_lossless
  refine ⟨hp, hq, bounded q hq, black, shown, fun h => black ?_⟩
  have he : p.frame = q.frame := (distinct p q hp hq).1 h
  rwa [Ppu.pixels, he]

end CommandLine
end Famicom
