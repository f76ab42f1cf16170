/-
# Blanks around words, and parts of texts

Taking away the blanks at the ends of a text finds the one word that is the text but for blanks
around it (`Text.trim_eq_iff`).  Blanks at the ends of a text are blanks at the ends of its first
and its last part, so it does not matter whether they are taken away before the text is cut into
parts or after (`Text.map_trim_parts_trim`).
-/

import Famicom.Text.Blank
import Mathlib.Data.List.TakeWhile

namespace Famicom
namespace Text

/-- The text consists of the word and of blanks around it. -/
def Padded (word s : List Char) : Prop :=
  ∃ before after, (∀ c ∈ before, isBlank c) ∧ (∀ c ∈ after, isBlank c) ∧ s = before ++ word ++ after

/-- The word has no blanks at its ends. -/
structure Bare (word : List Char) : Prop where
  head : ∀ c ∈ word.head?, isBlank c = false
  last : ∀ c ∈ word.getLast?, isBlank c = false

variable {s word before after : List Char}

/-! ### Trimming -/

/-- What is dropped in front of something that is kept. -/
theorem dropWhile_append_of_head {p : Char → Bool} (hb : ∀ c ∈ before, p c)
    (hs : ∀ c ∈ s.head?, p c = false) : (before ++ s).dropWhile p = s := by
  rw [List.dropWhile_append_of_pos hb]
  cases s with
  | nil => rfl
  | cons c s => exact List.dropWhile_cons_of_neg (by rw [hs c rfl]; exact Bool.false_ne_true)

/-- **The blanks around a word** are taken away, and the word is left. -/
theorem Padded.trim_eq (h : Padded word s) (hw : Bare word) : trim s = word := by
  obtain ⟨before, after, hb, ha, rfl⟩ := h
  cases word with
  | nil =>
    have hall : ∀ c ∈ before ++ [] ++ after, isBlank c := by
      intro c hc
      rw [List.append_nil, List.mem_append] at hc
      exact hc.elim (hb c) (ha c)
    rw [trim, List.dropWhile_eq_nil_iff.2 hall]
    rfl
  | cons c word =>
    have front : (before ++ (c :: word) ++ after).dropWhile isBlank = c :: word ++ after := by
      rw [List.append_assoc]
      exact dropWhile_append_of_head hb hw.head
    have back : (c :: word ++ after).reverse.dropWhile isBlank = (c :: word).reverse := by
      rw [List.reverse_append]
      refine dropWhile_append_of_head (fun d hd => ha d (List.mem_reverse.1 hd)) fun d hd => ?_
      rw [List.head?_reverse] at hd
      exact hw.last d hd
    rw [trim, front, back, List.reverse_reverse]

/-- What is left when blanks are dropped does not start with one. -/
theorem head_dropWhile (p : Char → Bool) (s : List Char) :
    ∀ c ∈ (s.dropWhile p).head?, p c = false := by
  intro c hc
  have h := List.head?_dropWhile_not p s
  rwa [Option.mem_def.1 hc] at h

/-- Every text is a word with blanks around it. -/
theorem padded_trim (s : List Char) : Padded (trim s) s ∧ Bare (trim s) := by
  let kept := s.dropWhile isBlank
  have front : s.takeWhile isBlank ++ kept = s := List.takeWhile_append_dropWhile
  have back : trim s ++ (kept.reverse.takeWhile isBlank).reverse = kept := by
    rw [trim, ← List.reverse_append, List.takeWhile_append_dropWhile, List.reverse_reverse]
  constructor
  · refine ⟨s.takeWhile isBlank, (kept.reverse.takeWhile isBlank).reverse,
      fun c hc => List.mem_takeWhile_imp hc,
      fun c hc => List.mem_takeWhile_imp (List.mem_reverse.1 hc), ?_⟩
    rw [List.append_assoc, back, front]
  · refine ⟨fun c hc => head_dropWhile isBlank s c ?_, fun c hc => ?_⟩
    · show c ∈ kept.head?
      rw [← back, List.head?_append, Option.mem_def.1 hc]
      rfl
    · rw [trim, List.getLast?_reverse] at hc
      exact head_dropWhile isBlank _ c hc

/-- **What trimming finds**, and nothing else is. -/
theorem trim_eq_iff : trim s = word ↔ Padded word s ∧ Bare word := by
  constructor
  · rintro rfl
    exact padded_trim s
  · rintro ⟨hp, hw⟩
    exact hp.trim_eq hw

/-- There is nothing to trim twice. -/
theorem trim_trim (s : List Char) : trim (trim s) = trim s :=
  trim_eq_iff.2 ⟨⟨[], [], by simp, by simp, by simp⟩, (padded_trim s).2⟩

/-- The blanks within stay. -/
example : trim " a b\t".toList = "a b".toList := by decide

/-- Blanks in front of a text make no difference. -/
theorem trim_append_left (hb : ∀ c ∈ before, isBlank c) (s : List Char) :
    trim (before ++ s) = trim s := by
  rw [trim, List.dropWhile_append_of_pos hb, trim]

/-- Blanks behind a text make no difference. -/
theorem trim_append_right (ha : ∀ c ∈ after, isBlank c) (s : List Char) :
    trim (s ++ after) = trim s := by
  obtain ⟨hp, hw⟩ := padded_trim s
  obtain ⟨front, back, hf, hb, hs⟩ := hp
  refine trim_eq_iff.2 ⟨⟨front, back ++ after, hf, fun c hc => ?_, ?_⟩, hw⟩
  · exact (List.mem_append.1 hc).elim (hb c) (ha c)
  · rw [← List.append_assoc, ← hs]

/-! ### Parts -/

variable {separator : Char}

/-- A separator in front leaves an empty part before it. -/
theorem parts_cons_self (separator : Char) (cs : List Char) :
    parts separator (separator :: cs) = [] :: parts separator cs := if_pos rfl

/-- A character that does not separate belongs to the first part. -/
theorem parts_cons_of_ne {c : Char} (hc : c ≠ separator) (cs : List Char) :
    parts separator (c :: cs) = (parts separator cs).modifyHead (c :: ·) := by
  have hne := parts_ne_nil separator cs
  rw [parts, if_neg hc]
  generalize parts separator cs = ps at hne
  cases ps with
  | nil => exact absurd rfl hne
  | cons p ps => rfl

/-- Characters that do not separate belong to the first part. -/
theorem parts_append (hb : separator ∉ before) (cs : List Char) :
    parts separator (before ++ cs) = (parts separator cs).modifyHead (before ++ ·) := by
  induction before with
  | nil => exact (congrFun List.modifyHead_id _).symm
  | cons c before ih =>
    rw [List.mem_cons, not_or] at hb
    rw [List.cons_append, parts_cons_of_ne (Ne.symm hb.1), ih hb.2, List.modifyHead_modifyHead]
    rfl

/-- A text without separators is its only part. -/
theorem parts_of_not_mem (hs : separator ∉ s) : parts separator s = [s] := by
  have h := parts_append hs []
  rwa [List.append_nil, parts, List.modifyHead_cons, List.append_nil] at h

/-- The first separator ends the first part. -/
theorem parts_append_cons (hb : separator ∉ before) (cs : List Char) :
    parts separator (before ++ separator :: cs) = before :: parts separator cs := by
  rw [parts_append hb, parts_cons_self, List.modifyHead_cons, List.append_nil]

/-- **Texts that are joined by a separator** are the parts of what they are joined to. -/
theorem parts_intercalate {texts : List (List Char)} (hne : texts ≠ [])
    (hs : ∀ t ∈ texts, separator ∉ t) :
    parts separator ([separator].intercalate texts) = texts := by
  induction texts with
  | nil => exact absurd rfl hne
  | cons t texts ih =>
    obtain ⟨ht, hs⟩ := List.forall_mem_cons.1 hs
    cases texts with
    | nil => rw [List.intercalate_singleton, parts_of_not_mem ht]
    | cons u texts =>
      rw [List.intercalate_cons_cons, List.append_assoc, List.singleton_append,
        parts_append_cons ht, ih (List.cons_ne_nil u texts) hs]

/-- Joining adds only separators. -/
theorem mem_intercalate {separator c : Char} {texts : List (List Char)}
    (h : c ∈ [separator].intercalate texts) : c = separator ∨ ∃ t ∈ texts, c ∈ t := by
  induction texts with
  | nil => cases h
  | cons t texts ih =>
    cases texts with
    | nil => exact .inr ⟨t, List.mem_singleton_self t, by rwa [List.intercalate_singleton] at h⟩
    | cons u texts =>
      rw [List.intercalate_cons_cons, List.mem_append, List.mem_append, List.mem_singleton] at h
      obtain (h | h) | h := h
      · exact .inr ⟨t, List.mem_cons_self .., h⟩
      · exact .inl h
      · obtain h | ⟨v, hv, h⟩ := ih h
        · exact .inl h
        · exact .inr ⟨v, List.mem_cons_of_mem _ hv, h⟩

/-- Blanks in front of a text are in front of its first part. -/
theorem map_trim_parts_append_left (hb : ∀ c ∈ before, isBlank c) (hs : isBlank separator = false)
    (cs : List Char) :
    (parts separator (before ++ cs)).map trim = (parts separator cs).map trim := by
  have hm : separator ∉ before := fun h => Bool.false_ne_true (hs.symm.trans (hb _ h))
  rw [parts_append hm]
  cases parts separator cs with
  | nil => rfl
  | cons p ps => rw [List.modifyHead_cons, List.map_cons, List.map_cons, trim_append_left hb]

/-- Blanks behind a text are behind its last part. -/
theorem map_trim_parts_append_right (ha : ∀ c ∈ after, isBlank c) (hs : isBlank separator = false)
    (cs : List Char) :
    (parts separator (cs ++ after)).map trim = (parts separator cs).map trim := by
  have hm : separator ∉ after := fun h => Bool.false_ne_true (hs.symm.trans (ha _ h))
  -- What has been passed of a part is put in front of the rest of the text.
  have key (front : List Char) (hf : separator ∉ front) :
      (parts separator (front ++ (cs ++ after))).map trim =
        (parts separator (front ++ cs)).map trim := by
    induction cs generalizing front with
    | nil =>
      have hfa : separator ∉ front ++ after := fun h => (List.mem_append.1 h).elim hf hm
      rw [List.nil_append, List.append_nil, parts_of_not_mem hf, parts_of_not_mem hfa,
        List.map_singleton, List.map_singleton, trim_append_right ha]
    | cons c cs ih =>
      by_cases hc : c = separator
      · subst hc
        have h := ih [] List.not_mem_nil
        rw [List.cons_append, parts_append_cons hf, parts_append_cons hf, List.map_cons,
          List.map_cons]
        exact congrArg _ h
      · have hfc : separator ∉ front ++ [c] := fun h =>
          (List.mem_append.1 h).elim hf fun h => hc (List.mem_singleton.1 h).symm
        have h := ih (front ++ [c]) hfc
        rwa [List.append_assoc, List.append_assoc] at h
  exact key [] List.not_mem_nil

/-- **Whether a text is trimmed before it is cut into parts** does not matter if the parts are
trimmed. -/
theorem map_trim_parts_trim (hs : isBlank separator = false) (s : List Char) :
    (parts separator (trim s)).map trim = (parts separator s).map trim := by
  obtain ⟨before, after, hb, ha, h⟩ := (padded_trim s).1
  have hm : (parts separator (before ++ trim s ++ after)).map trim =
      (parts separator (trim s)).map trim := by
    rw [map_trim_parts_append_right ha hs, map_trim_parts_append_left hb hs]
  rw [← hm, ← h]

end Text
end Famicom
