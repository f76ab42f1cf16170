/-
# Lists of buttons

A text that lists buttons is what texts are joined to by commas: each of them a name, in capitals
or not and with blanks around it, or nothing but blanks (`CommandLine.Stands`).  Of such a list the
buttons count that it names, and neither their order nor anything else
(`CommandLine.bitsOf_congr`).

A text is read as a list unless it is the numeral of a byte or starts like a hexadecimal one
(`CommandLine.readButtons_eq_readNames`).  What lists buttons is neither, since there is no digit
in it; any other text is read up to the first of its parts that stands for nothing.
-/

import Famicom.CommandLine.Buttons
import Famicom.Proofs.Text.Digits
import Famicom.Proofs.Text.Padding
import Mathlib.Data.List.Forall2
import Mathlib.Data.List.ReduceOption

namespace Famicom
namespace CommandLine

open Pad (Button)
open Text

/-- What a text between two commas stands for. -/
inductive Stands (s : String) : Option Button → Prop where
  /-- Blanks stand for no button. -/
  | nothing (hs : ∀ c ∈ s.toList, isBlank c) : Stands s none
  /-- A name stands for its button, whichever of its letters are capitals. -/
  | button {word : List Char} {button : Button} (hs : Padded word s.toList)
      (hw : word.map Char.toLower = button.name.toList) : Stands s (some button)

/-- The bits of some buttons. -/
def bitsOf (buttons : List Button) : UInt8 := (buttons.map Button.bit).foldr (· ||| ·) 0

/-- The text is a numeral of a byte, with blanks around it. -/
def IsNumber (s : String) : Prop := ∃ word, Padded word s.toList ∧ IsByte word

/-- The text starts with 0x, in capitals or not, but for blanks. -/
def StartsHex (s : String) : Prop :=
  ∃ blanks digits, (∀ c ∈ blanks, isBlank c) ∧
    (s.toList = blanks ++ '0' :: 'x' :: digits ∨ s.toList = blanks ++ '0' :: 'X' :: digits)

/-! ### Names -/

section Names

variable {s : String} {word : List Char} {button : Button} {m : Option Button}

/-- A button is found by its name, -/
theorem ofName?_name (button : Button) : Button.ofName? button.name = some button := by
  cases button <;> decide

/-- and by no other. -/
theorem name_of_ofName? {name : String} (h : Button.ofName? name = some button) :
    button.name = name := by
  have hb := List.find?_some h
  exact beq_iff_eq.1 hb

/-- Names are in small letters. -/
theorem isLower_of_mem_name (button : Button) : ∀ c ∈ button.name.toList, c.isLower := by
  have all : button.name.toList.all Char.isLower = true := by cases button <;> decide
  exact List.all_eq_true.1 all

/-- A name has letters only. -/
theorem isAlpha_of_mem (hw : word.map Char.toLower = button.name.toList) :
    ∀ c ∈ word, c.isAlpha := by
  intro c hc
  refine isAlpha_of_isLower_toLower (isLower_of_mem_name button _ ?_)
  rw [← hw]
  exact List.mem_map_of_mem hc

/-- A name has no blanks at its ends, however its letters are written. -/
theorem bare_of_name (hw : word.map Char.toLower = button.name.toList) : Bare word := by
  have blank (c : Char) (hc : c ∈ word) : isBlank c = false := by
    refine Bool.eq_false_iff.2 fun hb => ?_
    have h := (not_isAlpha_not_isDigit_of_isBlank hb).1
    exact Bool.false_ne_true (h.symm.trans (isAlpha_of_mem hw c hc))
  exact ⟨fun c hc => blank c (List.mem_of_head? hc), fun c hc => blank c (List.mem_of_getLast? hc)⟩

/-- What a text stands for is told by what trimming leaves of it, in small letters. -/
theorem stands_iff :
    Stands s m ↔ (trim s.toList).map Char.toLower = m.elim [] fun button => button.name.toList := by
  constructor
  · intro h
    cases h with
    | nothing hs =>
      have hp : Padded [] s.toList := ⟨s.toList, [], hs, by simp, by simp⟩
      rw [trim_eq_iff.2 ⟨hp, by simp, by simp⟩]
      rfl
    | button hs hw =>
      rw [trim_eq_iff.2 ⟨hs, bare_of_name hw⟩, hw]
      rfl
  · intro h
    have hp := (padded_trim s.toList).1
    cases m with
    | some button => exact .button hp h
    | none =>
      obtain ⟨before, after, hb, ha, hs⟩ := hp
      rw [List.map_eq_nil_iff.1 h, List.append_nil] at hs
      refine .nothing fun c hc => ?_
      rw [hs, List.mem_append] at hc
      exact hc.elim (hb c) (ha c)

/-- **The characters of a text that stands for something** are blanks and letters. -/
theorem Stands.isBlank_or_isAlpha (h : Stands s m) : ∀ c ∈ s.toList, isBlank c ∨ c.isAlpha := by
  intro c hc
  cases h with
  | nothing hs => exact .inl (hs c hc)
  | button hs hw =>
    obtain ⟨before, after, hb, ha, hs⟩ := hs
    rw [hs, List.mem_append, List.mem_append] at hc
    obtain (hc | hc) | hc := hc
    · exact .inl (hb c hc)
    · exact .inr (isAlpha_of_mem hw c hc)
    · exact .inl (ha c hc)

/-- So there is no comma in what stands for a button, -/
theorem Stands.not_comma (h : Stands s m) : ',' ∉ s.toList := fun hc =>
  absurd (h.isBlank_or_isAlpha ',' hc) (by decide)

/-- and no digit. -/
theorem Stands.not_isDigit (h : Stands s m) : ∀ c ∈ s.toList, c.isDigit = false := fun c hc =>
  (h.isBlank_or_isAlpha c hc).elim
    (fun hb => (not_isAlpha_not_isDigit_of_isBlank hb).2) isDigit_of_isAlpha

end Names

/-! ### Bits -/

section Bits

variable {buttons buttons' : List Button}

/-- The bits of a list are those of its first button and those of the rest. -/
theorem bitsOf_cons (button : Button) (buttons : List Button) :
    bitsOf (button :: buttons) = button.bit ||| bitsOf buttons := rfl

/-- A bit is set if one of the buttons has it. -/
theorem testBit_bitsOf (buttons : List Button) (i : Nat) :
    (bitsOf buttons).toNat.testBit i = true ↔ ∃ button ∈ buttons,
      button.bit.toNat.testBit i = true := by
  induction buttons with
  | nil => simp [bitsOf]
  | cons button buttons ih =>
    rw [bitsOf_cons, UInt8.toNat_or, Nat.testBit_or, Bool.or_eq_true, ih, List.exists_mem_cons_iff]

/-- **Only which buttons there are matters**, and neither how often nor in which order. -/
theorem bitsOf_congr (h : ∀ button, button ∈ buttons ↔ button ∈ buttons') :
    bitsOf buttons = bitsOf buttons' := by
  rw [← UInt8.toNat_inj]
  refine Nat.eq_of_testBit_eq fun i => Bool.eq_iff_iff.2 ?_
  simp only [testBit_bitsOf, h]

/-- A button that is named twice is held once. -/
example : bitsOf [.start, .a, .start] = 9 ∧ bitsOf [.a, .start] = 9 := by decide

end Bits

/-! ### Reading names -/

section Reading

variable {s : String} {m : Option Button} {texts : List String} {named : List (Option Button)}

/-- Names are trimmed when they are read. -/
theorem readNames_map_trim (held : UInt8) (names : List (List Char)) :
    readNames held (names.map trim) = readNames held names := by
  induction names generalizing held with
  | nil => rfl
  | cons name names ih => simp only [List.map_cons, readNames, trim_trim, ih]

/-- A text that stands for a button adds its bit. -/
theorem readNames_cons_of_stands (h : Stands s m) (held : UInt8) (names : List (List Char)) :
    readNames held (s.toList :: names) = readNames (held ||| bitsOf m.toList) names := by
  have hw := stands_iff.1 h
  cases m with
  | none =>
    have hb : bitsOf (none : Option Button).toList = 0 := rfl
    rw [readNames, hw, hb, UInt8.or_zero]
    rfl
  | some button =>
    have hb : bitsOf (some button).toList = button.bit := UInt8.or_zero
    have hn : (button.name.toList).isEmpty = false := by cases button <;> rfl
    rw [readNames, hw, hb]
    simp only [Option.elim, hn, Bool.false_eq_true, if_false, String.ofList_toList, ofName?_name]

/-- A text that stands for nothing is named in small letters. -/
theorem readNames_cons_of_not_stands (h : ∀ m, ¬ Stands s m) (held : UInt8)
    (names : List (List Char)) : readNames held (s.toList :: names) =
      .error (.unknown (String.ofList ((trim s.toList).map Char.toLower))) := by
  have hne : ((trim s.toList).map Char.toLower).isEmpty = false := by
    refine Bool.eq_false_iff.2 fun he => h none (stands_iff.2 ?_)
    exact List.isEmpty_iff.1 he
  have hf : Button.ofName? (String.ofList ((trim s.toList).map Char.toLower)) = none := by
    refine Option.eq_none_iff_forall_ne_some.2 fun button hb => h (some button) (stands_iff.2 ?_)
    rw [Option.elim, name_of_ofName? hb, String.toList_ofList]
  rw [readNames]
  simp only [hne, Bool.false_eq_true, if_false, hf]

/-- **Texts that stand for buttons** add their bits, and what follows them is read. -/
theorem readNames_append_of_stands (h : List.Forall₂ Stands texts named) (held : UInt8)
    (rest : List (List Char)) :
    readNames held (texts.map String.toList ++ rest) =
      readNames (held ||| bitsOf named.reduceOption) rest := by
  induction h generalizing held with
  | nil => exact congrArg (readNames · rest) UInt8.or_zero.symm
  | @cons s m texts named hs _ ih =>
    rw [List.map_cons, List.cons_append, readNames_cons_of_stands hs, ih, UInt8.or_assoc]
    cases m with
    | none =>
      rw [List.reduceOption_cons_of_none, show bitsOf (none : Option Button).toList = 0 from rfl,
        UInt8.zero_or]
    | some button =>
      rw [List.reduceOption_cons_of_some, bitsOf_cons, Option.toList_some, bitsOf_cons,
        show bitsOf [] = 0 from rfl, UInt8.or_zero]

end Reading

/-! ### Reading a text -/

section Texts

variable {s : String}

/-- **A text that is no number** of either kind is read as a list. -/
theorem readButtons_eq_readNames (hn : ¬ IsNumber s) (hx : ¬ StartsHex s) :
    readButtons s = readNames 0 (parts ',' s.toList) := by
  obtain ⟨before, after, hb, ha, hs⟩ := (padded_trim s.toList).1
  have hp : readNames 0 (parts ',' (trim s.toList)) = readNames 0 (parts ',' s.toList) := by
    rw [← readNames_map_trim, map_trim_parts_trim (by decide), readNames_map_trim]
  rw [readButtons, ← hp]
  split
  · next digits h =>
    refine absurd ⟨before, digits ++ after, hb, .inl ?_⟩ hx
    rw [hs, h, List.append_assoc]
    rfl
  · next digits h =>
    refine absurd ⟨before, digits ++ after, hb, .inr ?_⟩ hx
    rw [hs, h, List.append_assoc]
    rfl
  · split
    · next h => exact absurd ⟨_, (padded_trim s.toList).1, isByte_of_readNumeral h⟩ hn
    · rfl

/-- A text without digits is no number, -/
theorem not_isNumber_of_no_digit (h : ∀ c ∈ s.toList, c.isDigit = false) : ¬ IsNumber s := by
  rintro ⟨word, ⟨before, after, -, -, hs⟩, digits, hw, hne, hd, -⟩
  obtain ⟨c, hc⟩ := List.exists_mem_of_ne_nil digits hne
  have hcw : c ∈ word := hw.elim (fun e => e ▸ hc) fun e => e ▸ List.mem_cons_of_mem _ hc
  have hcs : c ∈ s.toList := by
    rw [hs]
    exact List.mem_append_left _ (List.mem_append_right _ hcw)
  exact Bool.false_ne_true ((h c hcs).symm.trans (hd c hc))

/-- and does not start like a hexadecimal one. -/
theorem not_startsHex_of_no_digit (h : ∀ c ∈ s.toList, c.isDigit = false) : ¬ StartsHex s := by
  rintro ⟨blanks, digits, -, hs⟩
  have hz : '0' ∈ s.toList := by
    obtain hs | hs := hs <;> rw [hs] <;> exact List.mem_append_right _ (List.mem_cons_self ..)
  exact absurd (h '0' hz) (by decide)

variable {texts : List String} {named : List (Option Button)}

/-- Texts without commas come apart as they were joined. -/
theorem parts_joined (hne : texts ≠ []) (h : ∀ t ∈ texts, ',' ∉ t.toList) :
    parts ',' (",".intercalate texts).toList = texts.map String.toList := by
  rw [String.toList_intercalate]
  refine parts_intercalate (fun he => hne (List.map_eq_nil_iff.1 he)) fun t ht => ?_
  obtain ⟨u, hu, rfl⟩ := List.mem_map.1 ht
  exact h u hu

/-- A list names something if each of its texts stands for something. -/
theorem exists_named_iff :
    (∃ named, List.Forall₂ Stands texts named) ↔ ∀ t ∈ texts, ∃ m, Stands t m := by
  induction texts with
  | nil => exact ⟨fun _ => List.forall_mem_nil _, fun _ => ⟨[], .nil⟩⟩
  | cons t texts ih =>
    rw [List.forall_mem_cons, ← ih]
    constructor
    · rintro ⟨_, h⟩
      obtain ⟨m, named, hm, hn, -⟩ := List.forall₂_cons_left_iff.1 h
      exact ⟨⟨m, hm⟩, named, hn⟩
    · rintro ⟨⟨m, hm⟩, named, hn⟩
      exact ⟨m :: named, .cons hm hn⟩

/-- **What lists buttons** is read as their bits. -/
theorem readButtons_of_stands (h : List.Forall₂ Stands texts named) :
    readButtons (",".intercalate texts) = .ok (bitsOf named.reduceOption) := by
  have stands := exists_named_iff.1 ⟨named, h⟩
  have digitless : ∀ c ∈ (",".intercalate texts).toList, c.isDigit = false := by
    intro c hc
    rw [String.toList_intercalate] at hc
    obtain rfl | ⟨t, ht, hc⟩ := mem_intercalate hc
    · decide
    · obtain ⟨u, hu, rfl⟩ := List.mem_map.1 ht
      obtain ⟨m, hm⟩ := stands u hu
      exact hm.not_isDigit c hc
  rw [readButtons_eq_readNames (not_isNumber_of_no_digit digitless)
    (not_startsHex_of_no_digit digitless)]
  by_cases hne : texts = []
  · subst hne
    cases h
    rfl
  · have hc : ∀ t ∈ texts, ',' ∉ t.toList := fun t ht => (stands t ht).elim fun _ hm => hm.not_comma
    have hr := readNames_append_of_stands h 0 []
    rw [List.append_nil, UInt8.zero_or] at hr
    rw [parts_joined hne hc, hr]
    rfl

/-- **The first text that stands for nothing** is what is wrong with a list. -/
theorem readButtons_of_not_stands {before after : List String} {t : String}
    (hc : ∀ u ∈ before ++ t :: after, ',' ∉ u.toList)
    (hn : ¬ IsNumber (",".intercalate (before ++ t :: after)))
    (hx : ¬ StartsHex (",".intercalate (before ++ t :: after)))
    (hb : List.Forall₂ Stands before named) (ht : ∀ m, ¬ Stands t m) :
    readButtons (",".intercalate (before ++ t :: after)) =
      .error (.unknown (String.ofList ((trim t.toList).map Char.toLower))) := by
  rw [readButtons_eq_readNames hn hx, parts_joined (by simp) hc, List.map_append,
    readNames_append_of_stands hb, List.map_cons, readNames_cons_of_not_stands ht]

end Texts

/-- **What buttons are read from a text.**  If each of the texts between its commas is a name, in
capitals or not and with blanks around it, or nothing but blanks, then the bits of the buttons that
are named are read, each counted once and in any order.  Otherwise, unless the text is the numeral
of a byte or starts like a hexadecimal one, it is refused, and the first of its parts that is
neither is named, without its blanks and in small letters. -/
theorem lists_name_buttons :
    (∀ texts named, List.Forall₂ Stands texts named →
      readButtons (",".intercalate texts) = .ok (bitsOf named.reduceOption)) ∧
    (∀ texts texts' named named', List.Forall₂ Stands texts named →
      List.Forall₂ Stands texts' named' →
      (∀ button, some button ∈ named ↔ some button ∈ named') →
        readButtons (",".intercalate texts) = readButtons (",".intercalate texts')) ∧
    (∀ before t after, (∀ u ∈ before ++ t :: after, ',' ∉ u.toList) →
      let s := ",".intercalate (before ++ t :: after)
      ¬ IsNumber s → ¬ StartsHex s → (∀ u ∈ before, ∃ m, Stands u m) → (∀ m, ¬ Stands t m) →
        ∃ word, Padded word t.toList ∧ Bare word ∧
          (readButtons s).mapError ButtonFault.message =
            .error ("unknown button '" ++ String.ofList (word.map Char.toLower) ++ "'")) := by
  refine ⟨fun texts named h => readButtons_of_stands h, fun texts texts' named named' h h' hm => ?_,
    fun before t after hc => ?_⟩
  · -- the bits of a list are those of its buttons, so their order and their number do not matter
    rw [readButtons_of_stands h, readButtons_of_stands h']
    refine congrArg _ (bitsOf_congr fun button => ?_)
    rw [List.reduceOption_mem_iff, List.reduceOption_mem_iff, hm]
  · intro s hn hx hb ht
    obtain ⟨named, hb⟩ := exists_named_iff.2 hb
    obtain ⟨hp, hw⟩ := padded_trim t.toList
    refine ⟨trim t.toList, hp, hw, ?_⟩
    rw [readButtons_of_not_stands hc hn hx hb ht]
    rfl

/-- Start and A, with blanks and capitals, nothing between two commas, and Start a second time; and
a list that is refused for what stands between a name and blanks. -/
theorem lists_name_buttons_twice :
    let texts := [" Start", "\tA ", "", "START"]
    let named : List (Option Button) := [some .start, some .a, none, some .start]
    let texts' := ["a", "start"]
    let named' : List (Option Button) := [some .a, some .start]
    let wrong := "up, Turbo , "
    (List.Forall₂ Stands texts named ∧ List.Forall₂ Stands texts' named' ∧
      (∀ button, some button ∈ named ↔ some button ∈ named')) ∧
    readButtons (",".intercalate texts) = .ok 0x09 ∧
    readButtons (",".intercalate texts) = readButtons (",".intercalate texts') ∧
    (¬ IsNumber wrong ∧ ¬ StartsHex wrong ∧ (∃ m, Stands "up" m) ∧ ∀ m, ¬ Stands " Turbo " m) ∧
    (readButtons wrong).mapError ButtonFault.message = .error "unknown button 'turbo'" := by
  intro texts named texts' named' wrong
  have ht : List.Forall₂ Stands texts named :=
    .cons (stands_iff.2 (by decide)) <| .cons (stands_iff.2 (by decide)) <|
      .cons (stands_iff.2 (by decide)) <| .cons (stands_iff.2 (by decide)) .nil
  have ht' : List.Forall₂ Stands texts' named' :=
    .cons (stands_iff.2 (by decide)) (.cons (stands_iff.2 (by decide)) .nil)
  have hm : ∀ button, some button ∈ named ↔ some button ∈ named' := by
    intro button
    cases button <;> decide
  have hw : ",".intercalate (["up"] ++ " Turbo " :: [" "]) = wrong := by decide
  have hd : ∀ c ∈ wrong.toList, c.isDigit = false := fun c hc =>
    Bool.eq_false_iff.2
      (List.any_eq_false.1 (show wrong.toList.any Char.isDigit = false by decide) c hc)
  have hn : ¬ IsNumber wrong := not_isNumber_of_no_digit hd
  have hx : ¬ StartsHex wrong := not_startsHex_of_no_digit hd
  have hb : ∃ m, Stands "up" m := ⟨some .up, stands_iff.2 (by decide)⟩
  -- a text stands for a button if the name is in it, and none of the names is
  have hf : ∀ m, ¬ Stands " Turbo " m := by
    intro m h
    have hw := stands_iff.1 h
    cases m with
    | none => exact absurd hw (by decide)
    | some button => cases button <;> exact absurd hw (by decide)
  obtain ⟨listed, same, refused⟩ := lists_name_buttons
  refine ⟨⟨ht, ht', hm⟩, (listed texts named ht).trans (by decide),
    same texts texts' named named' ht ht' hm, ⟨hn, hx, hb, hf⟩, ?_⟩
  obtain ⟨word, hp, hw', he⟩ := refused ["up"] " Turbo " [" "] (by decide) (hw ▸ hn) (hw ▸ hx)
    (fun u hu => List.mem_singleton.1 hu ▸ hb) hf
  obtain rfl : "Turbo".toList = word := ((trim_eq_iff.2 ⟨hp, hw'⟩).symm.trans (by decide)).symm
  rw [hw] at he
  exact he.trans (by decide)

end CommandLine
end Famicom
