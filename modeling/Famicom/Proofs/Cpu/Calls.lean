/-
# Calls and returns

`JSR` pushes a word and `RTS` pulls one, so what is known of the stack is known of calls: in a run
in which calls and returns are nested (`Cpu.Nested`), no more than 128 calls deep, the words on the
stack are the return addresses of the calls that have not returned, the innermost on top
(`Cpu.Nested.exists_run`).  With 128 calls the page of the stack is full to the last byte.
-/

import Famicom.Proofs.Board.Blank
import Famicom.Proofs.Cpu.Stack

namespace Famicom
namespace Cpu

variable {β : Type} [Bus β] {c d : Cpu} {b b' : β}

/-- What a call does: the address of its last byte goes to the stack. -/
theorem step_jsr (h : decode (Bus.read b c.registers.pc).1 = some ⟨.jsr, .absolute⟩) :
    let pc := c.registers.pc
    let target := Bus.readWord (Bus.read b pc).2 (pc + 1)
    let pushed := pushWord { c.registers with pc := pc + 3 } target.2 (pc + 2)
    c.step b =
      (.ok 6, { c with registers := { pushed.1 with pc := target.1 }, total := c.total + 6 },
        pushed.2) := by
  have behind : c.registers.pc + 1 + 2 = c.registers.pc + 3 := by grind
  have last : c.registers.pc + 3 - 1 = c.registers.pc + 2 := by grind
  have bytes : AddressingMode.absolute.operandBytes = 2 := rfl
  unfold step
  simp only [h, bytes, behind]
  simp only [← last]
  rfl

/-- What a return does: it goes behind the address that it finds on the stack. -/
theorem step_rts (h : decode (Bus.read b c.registers.pc).1 = some ⟨.rts, .implied⟩) :
    let pulled :=
      pullWord { c.registers with pc := c.registers.pc + 1 } (Bus.read b c.registers.pc).2
    c.step b =
      (.ok 6, { c with registers := { pulled.2.1 with pc := pulled.1 + 1 }, total := c.total + 6 },
        pulled.2.2) := by
  rw [step_implied h]
  rfl

/-- A run in which calls and returns are nested, no more than 128 calls deep.  `callers` are the
addresses of the calls that have not returned, the innermost first.  In between whatever may happen
that neither moves the stack pointer nor writes page one. -/
inductive Nested (c : Cpu) (b : β) : List UInt16 → Cpu → β → Prop where
  | start : Nested c b [] c b
  | call {callers : List UInt16} {d : Cpu} {b' : β} (h : Nested c b callers d b')
      (jsr : decode (Bus.read b' d.registers.pc).1 = some ⟨.jsr, .absolute⟩)
        (room : callers.length < 128) :
      Nested c b (d.registers.pc :: callers) (d.step b').2.1 (d.step b').2.2
  | ret {caller : UInt16} {callers : List UInt16} {d : Cpu} {b' : β}
    (h : Nested c b (caller :: callers) d b')
      (rts : decode (Bus.read b' d.registers.pc).1 = some ⟨.rts, .implied⟩) :
      Nested c b callers (d.step b').2.1 (d.step b').2.2
  | elsewhere {callers : List UInt16} {d e : Cpu} {b' b'' : β} (h : Nested c b callers d b')
      (sp : e.registers.sp = d.registers.sp) (same : SameStack b' b'') : Nested c b callers e b''

/-- What lies on the stack for the calls that have not returned: the addresses of their last
bytes. -/
def pending (callers : List UInt16) : List UInt8 :=
  callers.flatMap fun caller => [Word.low (caller + 2), Word.high (caller + 2)]

/-- Each caller has two bytes on the stack. -/
theorem length_pending (callers : List UInt16) : (pending callers).length = 2 * callers.length := by
  induction callers with
  | nil => rfl
  | cons caller callers ih =>
    rw [pending, List.flatMap_cons, List.length_append, ← pending, ih, List.length_cons]
    simp only [List.length_cons, List.length_nil]
    omega

/-- No read changes page one. -/
def ReadsSpareStack (β : Type) [Bus β] : Prop :=
  ∀ (b : β) (address : UInt16), SameStack b (Bus.read b address).2

/-- The fetch of an opcode leaves the stack alone. -/
theorem Run.fetch (quiet : ReadsSpareStack β) {r r' : Registers} {moves : List Move}
    (run : Run r b moves r' b') (address pc : UInt16) :
    Run r b moves { r' with pc } (Bus.read b' address).2 :=
  run.elsewhere rfl (quiet b' address)

variable [StackMemory β]

/-- The word that is pulled while calls have not returned is where the innermost of them is. -/
theorem Run.pullWord_eq {r r' : Registers} {moves : List Move} {caller : UInt16}
    {callers : List UInt16} (run : Run r b moves r' b') (fits : Fits moves)
    (hh : held? moves = some (pending (caller :: callers))) :
    (Cpu.pullWord r' b').1 = caller + 2 ∧ Fits (moves ++ [.pullWord (Cpu.pullWord r' b').1]) ∧
      held? (moves ++ [.pullWord (Cpu.pullWord r' b').1]) = some (pending callers) := by
  obtain ⟨held, hh', hl, hs, -⟩ := run.pulls fits
  rw [hh, Option.some.injEq] at hh'
  subst hh'
  have hw : (Cpu.pullWord r' b').1 = caller + 2 := hs.pullWord.1.trans (Word.ofBytes_low_high _)
  refine ⟨hw, fits_concat.2 ⟨fits, ?_⟩, ?_⟩
  · have hf := (fits moves (List.prefix_refl _)).2
    rw [length_pending, List.length_cons] at hl
    rw [Move.growth]
    omega
  · rw [held?_concat hh, hw]
    exact if_pos (Word.ofBytes_low_high _)

variable (quiet : ReadsSpareStack β)
include quiet

/-- **Nested calls use the stack as one**, and what it holds is where they return to. -/
theorem Nested.exists_run {callers : List UInt16} (h : Nested c b callers d b') :
    ∃ moves, Run c.registers b moves d.registers b' ∧ Fits moves ∧
      held? moves = some (pending callers) := by
  induction h with
  | start =>
    exact ⟨[], .start, fits_nil, rfl⟩
  | elsewhere _ sp same ih =>
    obtain ⟨moves, run, fits, hh⟩ := ih
    exact ⟨moves, run.elsewhere sp same, fits, hh⟩
  | @call callers d b' _ jsr room ih =>
    obtain ⟨moves, run, fits, hh⟩ := ih
    obtain ⟨held, hh', hl, -, -⟩ := run.pulls fits
    rw [hh, Option.some.injEq] at hh'
    subst hh'
    rw [length_pending] at hl
    -- the instruction is fetched, the word pushed, and the program counter set
    have fetched :=
      ((run.fetch quiet d.registers.pc 0).fetch quiet (d.registers.pc + 1) 0).fetch quiet
      (d.registers.pc + 1 + 1) (d.registers.pc + 3)
    have pushed := fetched.pushWord (d.registers.pc + 2)
    refine ⟨moves ++ [.pushWord (d.registers.pc + 2)], ?_, fits_concat.2 ⟨fits, ?_⟩, ?_⟩
    · rw [step_jsr jsr]
      exact pushed.elsewhere rfl fun _ => rfl
    · rw [Move.growth]
      omega
    · rw [held?_concat hh]
      rfl
  | @ret caller callers d b' _ rts ih =>
    obtain ⟨moves, run, fits, hh⟩ := ih
    have fetched := run.fetch quiet d.registers.pc (d.registers.pc + 1)
    obtain ⟨-, fits', hh'⟩ := fetched.pullWord_eq fits hh
    refine ⟨_, ?_, fits', hh'⟩
    rw [step_rts rts]
    exact fetched.pullWord.elsewhere rfl fun _ => rfl

/-- A return that has a call goes behind it. -/
theorem Nested.step_rts {caller : UInt16} {callers : List UInt16}
    (h : Nested c b (caller :: callers) d b')
    (rts : decode (Bus.read b' d.registers.pc).1 = some ⟨.rts, .implied⟩) :
    (d.step b').1 = .ok 6 ∧ (d.step b').2.1.registers.pc = caller + 3 := by
  obtain ⟨moves, run, fits, hh⟩ := h.exists_run quiet
  have fetched := run.fetch quiet d.registers.pc (d.registers.pc + 1)
  obtain ⟨hw, -, -⟩ := fetched.pullWord_eq fits hh
  have behind : caller + 2 + 1 = caller + 3 := by grind
  rw [Cpu.step_rts rts]
  refine ⟨rfl, ?_⟩
  rw [← behind, ← hw]

omit quiet

/-- **The page of the stack is a stack**, on every bus whose page one is memory and from every
value of the stack pointer.  As long as never less than no byte and never more than 256 bytes are
outstanding, a stack without bounds gives what is pulled, byte for byte, and the stack pointer is
the one at the start less the bytes outstanding, modulo 256.  So where reads leave page one alone,
calls that are nested up to 128 deep return, each to the instruction behind it. -/
theorem page_is_stack :
    (∀ (r r' : Registers) (b b' : β) (moves : List Move), Run r b moves r' b' → Fits moves →
      (∃ held, held? moves = some held ∧ (held.length : Int) = outstanding moves) ∧
        (r'.sp.toNat : Int) = ((r.sp.toNat : Int) - outstanding moves) % 256) ∧
    (ReadsSpareStack β →
      ∀ (c d : Cpu) (b b' : β) (caller : UInt16) (callers : List UInt16),
        Nested c b (caller :: callers) d b' →
        decode (Bus.read b' d.registers.pc).1 = some ⟨.rts, .implied⟩ →
          (d.step b').1 = .ok 6 ∧ (d.step b').2.1.registers.pc = caller + 3) := by
  constructor
  · intro r r' b b' moves run fits
    obtain ⟨held, hh, hl, -, hp⟩ := run.pulls fits
    exact ⟨⟨held, hh, hl⟩, hp⟩
  · intro quiet c d b b' caller callers h rts
    exact h.step_rts quiet rts

/-- A word that lies across the end of the page, and a call whose return address does. -/
theorem page_is_stack_wrapping :
    let m :=
      ((((Memory.ofBoard .blank 44100).write 0x0200 0x20).write 0x0202 0x03).write 0x0300 0x60)
    let r : Registers := { sp := 0x00, pc := 0x0200 }
    let pushed := pushWord r m 0x1234
    let pulled := pullWord pushed.1 pushed.2
    let c : Cpu := { registers := r }
    let d := (c.step m).2.1
    let m' := (c.step m).2.2
    Fits [.pushWord 0x1234, .pullWord pulled.1] ∧ pulled.1 = 0x1234 ∧ pulled.2.1.sp.toNat = 0 ∧
      ReadsSpareStack Memory ∧ c.Nested m [0x0200] d m' ∧
        (d.step m').2.1.registers.pc = 0x0203 := by
  intro m r pushed pulled c d m'
  -- the pushes go round from the bottom of the page to its top
  have fits : Fits [.pushWord 0x1234, .pullWord pulled.1] :=
    fits_concat.2 ⟨fits_concat.2 ⟨fits_nil, by decide⟩, by decide⟩
  have run : Run r m [.pushWord 0x1234, .pullWord pulled.1] pulled.2.1 pulled.2.2 :=
    (Run.start.pushWord 0x1234).pullWord
  have jsr : decode (m.read 0x0200).1 = some ⟨.jsr, .absolute⟩ := by decide +kernel
  have rts : decode (m'.read d.registers.pc).1 = some ⟨.rts, .implied⟩ := by decide +kernel
  have nested : c.Nested m [0x0200] d m' := .call .start jsr (by decide)
  obtain ⟨uses, returns⟩ := page_is_stack (β := Memory)
  obtain ⟨⟨held, hh, -⟩, hp⟩ := uses r pulled.2.1 m pulled.2.2 _ run fits
  refine ⟨fits, ?_, ?_, sameStack_memory_read, nested, ?_⟩
  · have pushed : held? [.pushWord 0x1234] = some [Word.low 0x1234, Word.high 0x1234] := rfl
    have pulls := (held?_concat pushed (.pullWord pulled.1)).symm.trans hh
    rw [Move.onList, Word.ofBytes_low_high] at pulls
    by_cases hw : 0x1234 = pulled.1
    · exact hw.symm
    · rw [if_neg hw] at pulls
      cases pulls
  · exact Int.ofNat_inj.1 hp
  · exact (returns sameStack_memory_read c d m m' 0x0200 [] nested rts).2

end Cpu
end Famicom
