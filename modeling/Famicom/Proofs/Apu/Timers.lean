/-
# When the timers expire

The five timers are one machine.  A cycle takes one off what is left on it, and when nothing is
left the channel goes on by a step and the timer is loaded again.  It expires in every `d`-th cycle
from then on, where `d` is one more than what is loaded: the pulses and the triangle load their
period, the noise and the delta modulation channel one less than theirs, which is why a period from
a table is itself the number of cycles and the others are one short of it (`Apu.Channel.spacing`).
So how often a timer expires can be read off a division (`Apu.expirations`), from whatever it is at
(`Apu.iterate_timer`), and a channel is where so many steps lead it
(`Apu.Channel.iterate_clockTimer`).

In the sound unit the timer of a pulse runs in every second cycle, and a sweep may change the
period under a step. The step under way keeps the length that it began with
(`Apu.Pulse.step_foldl_call`).
-/

import Famicom.Proofs.Apu.Mix
import Famicom.Proofs.Memory.Access
import Mathlib.Data.Nat.PSub

namespace Famicom
namespace Apu

/-- How often a timer expires in `n` cycles if `t` is left on it and it then expires in every
`d`-th cycle. -/
def expirations (d t n : Nat) : Nat := if n ≤ t then 0 else 1 + (n - 1 - t) / d

/-- What is left on it after these cycles. -/
def left (d t n : Nat) : Nat := if n ≤ t then t - n else d - 1 - (n - 1 - t) % d

variable {d : Nat}

/-- **One cycle more**: the timer expires if nothing is left on it, and otherwise one is taken
off. -/
theorem expirations_succ (hd : 0 < d) (t n : Nat) :
    (left d t n = 0 ∧ expirations d t (n + 1) = expirations d t n + 1 ∧ left d t (n + 1) = d - 1) ∨
      (0 < left d t n ∧ expirations d t (n + 1) = expirations d t n ∧
        left d t (n + 1) = left d t n - 1) := by
  unfold expirations left
  rcases lt_trichotomy n t with hn | rfl | hn
  · -- before the first time
    rw [if_pos hn.le, if_pos hn.le, if_pos (Nat.succ_le_of_lt hn), if_pos (Nat.succ_le_of_lt hn)]
    exact .inr ⟨Nat.sub_pos_of_lt hn, rfl, rfl⟩
  · -- the first time
    have hz : n + 1 - 1 - n = 0 := by omega
    rw [if_pos le_rfl, if_pos le_rfl, if_neg (Nat.not_succ_le_self n),
      if_neg (Nat.not_succ_le_self n), hz, Nat.zero_div, Nat.zero_mod]
    exact .inl ⟨Nat.sub_self n, rfl, rfl⟩
  · -- `d` cycles from one time to the next
    have hs : n + 1 - 1 - t = n - 1 - t + 1 := by omega
    rw [if_neg hn.not_ge, if_neg hn.not_ge, if_neg (Nat.lt_succ_of_lt hn).not_ge,
      if_neg (Nat.lt_succ_of_lt hn).not_ge, hs]
    obtain ⟨hl, hq, hm⟩ | ⟨hl, hq, hm⟩ := div_mod_succ hd (n - 1 - t)
    · rw [hq, hm]
      exact .inr ⟨by omega, rfl, by omega⟩
    · rw [hq, hm]
      exact .inl ⟨by omega, rfl, rfl⟩

/-- With one left on it, a timer that expires in every third cycle has done so twice in five
cycles. -/
example : expirations 3 1 5 = 2 ∧ left 3 1 5 = 2 := by decide

/-- **A timer from whatever it is at.**  `load` puts a number on it and `advance` is what it
drives.  What is asked is that a cycle takes one off, or goes on and puts `reload` on it if nothing
is left, and that going on does not change what is loaded. -/
theorem iterate_timer {σ : Type} {clock advance : σ → σ} (load : σ → Nat → σ) (reload : σ → Nat)
    (hclock : ∀ s t,
      clock (load s t) = if t = 0 then load (advance s) (reload s) else load s (t - 1))
    (hreload : ∀ s, reload (advance s) = reload s) {s : σ} {t : Nat} (hs : load s t = s)
    (hd : reload s + 1 = d) (n : Nat) :
    clock^[n] s = load (advance^[expirations d t n] s) (left d t n) := by
  have hk (k : Nat) : reload (advance^[k] s) = d - 1 := by
    induction k with
    | zero => exact Nat.eq_sub_of_add_eq hd
    | succ k ih => rw [Function.iterate_succ_apply', hreload, ih]
  induction n with
  | zero =>
    have hz : expirations d t 0 = 0 := if_pos (Nat.zero_le t)
    have hl : left d t 0 = t := if_pos (Nat.zero_le t)
    rw [hz, hl]
    exact hs.symm
  | succ n ih =>
    rw [Function.iterate_succ_apply', ih, hclock]
    obtain ⟨hz, he, hl⟩ | ⟨hp, he, hl⟩ :=
      expirations_succ (Nat.lt_of_lt_of_eq (Nat.succ_pos _) hd) t n
    · rw [if_pos hz, he, hl, hk, Function.iterate_succ_apply']
    · rw [if_neg hp.ne', he, hl]

/-! ### The five timers -/

/-- The wave of a pulse channel goes on by a step. -/
def Pulse.advance (p : Pulse) : Pulse := { p with step := (p.step + 1) % 8 }

/-- The wave of the triangle goes on by a step, if neither of its two counters holds it. -/
def Triangle.advance (t : Triangle) : Triangle :=
  { t with step := if t.length.active && 0 < t.linearCounter then (t.step + 1) % 32 else t.step }

/-- The register of the noise goes on by a step. -/
def Noise.advance (n : Noise) : Noise := { n with shift := nextShift n.shortMode n.shift }

namespace Channel

/-- A channel goes on by a step: of the delta modulation channel a bit goes out. -/
def advance : (c : Channel) → c.State → c.State
  | .voice .pulse1 | .voice .pulse2 => Pulse.advance
  | .voice .triangle => Triangle.advance
  | .voice .noise => Noise.advance
  | .dmc => Dmc.shiftOut

/-- What is left on the timer of a channel. -/
def timer : (c : Channel) → c.State → Nat
  | .voice .pulse1 | .voice .pulse2 => Pulse.timer
  | .voice .triangle => Triangle.timer
  | .voice .noise => Noise.timer
  | .dmc => Dmc.timer

/-- A channel with something else on its timer. -/
def withTimer : (c : Channel) → c.State → Nat → c.State
  | .voice .pulse1 | .voice .pulse2 => fun (p : Pulse) timer => { p with timer }
  | .voice .triangle => fun (t : Triangle) timer => { t with timer }
  | .voice .noise => fun (n : Noise) timer => { n with timer }
  | .dmc => fun (d : Dmc) timer => { d with timer }

/-- The cycles from one expiration of a timer to the next. -/
def spacing : (c : Channel) → c.State → Nat
  | .voice .pulse1 | .voice .pulse2 => fun (p : Pulse) => p.timerPeriod + 1
  | .voice .triangle => fun (t : Triangle) => t.timerPeriod + 1
  | .voice .noise => Noise.period
  | .dmc => Dmc.rate

/-- What a cycle leaves on the timer, in an arithmetic in which a difference below zero is a
failure. -/
def nextTimer? : (c : Channel) → c.State → Option Nat
  | .voice .pulse1 | .voice .pulse2 => fun (p : Pulse) =>
    if p.timer = 0 then some p.timerPeriod else p.timer.psub 1
  | .voice .triangle => fun (t : Triangle) =>
    if t.timer = 0 then some t.timerPeriod else t.timer.psub 1
  | .voice .noise => fun (n : Noise) => if n.timer = 0 then n.period.psub 1 else n.timer.psub 1
  | .dmc => fun (d : Dmc) => if 0 < d.timer then d.timer.psub 1 else d.rate.psub 1

end Channel

/-- The period of the noise channel is one of the table. -/
theorem Noise.period_mem (calls : List Channel.Call) :
    ∃ v, (calls.foldl call ({} : Noise)).period = Period.choose Period.noise v := by
  refine List.foldlRecOn
    (motive := fun n : Noise => ∃ v, n.period = Period.choose Period.noise v) calls call
    ⟨0, rfl⟩ fun n h x _ => ?_
  cases x with
  | write register v =>
    match register with
    | 0 | 1 | 3 => exact h
    | 2 => exact ⟨v, rfl⟩
  | clockTimer =>
    show ∃ v, n.clockTimer.period = _
    unfold clockTimer
    split_ifs <;> exact h
  | setEnabled _ | clockQuarter | clockHalf | fill _ | clearIrq => exact h

/-- The period of the delta modulation channel is one of the table. -/
theorem Dmc.rate_mem (calls : List Channel.Call) :
    ∃ v, (calls.foldl call ({} : Dmc)).rate = Period.choose Period.delta v := by
  refine List.foldlRecOn
    (motive := fun d : Dmc => ∃ v, d.rate = Period.choose Period.delta v) calls call
    ⟨0, rfl⟩ fun d h x _ => ?_
  cases x with
  | write register v =>
    match register with
    | 0 => exact ⟨v, rfl⟩
    | 1 | 2 | 3 => exact h
  | setEnabled enabled =>
    show ∃ v, (d.setEnabled enabled).rate = _
    unfold setEnabled
    split_ifs <;> exact h
  | clockTimer =>
    show ∃ v, d.clockTimer.rate = _
    rwa [rate_clockTimer]
  | fill w =>
    obtain ⟨_, _, _, hf⟩ := d.fill_eq w
    show ∃ v, (d.fill w).rate = _
    rwa [hf]
  | clockQuarter | clockHalf | clearIrq => exact h

/-- A bit goes out whatever is on the timer, and nothing is put on it. -/
theorem Dmc.shiftOut_eq (d : Dmc) (timer : Nat) : ∃ level buffer shift bitsLeft silent,
    shiftOut d = { d with level, buffer, shift, bitsLeft, silent } ∧
      shiftOut { d with timer } = { d with timer, level, buffer, shift, bitsLeft, silent } := by
  unfold shiftOut
  dsimp only
  by_cases hb : d.bitsLeft - 1 ≠ 0
  · rw [if_pos hb, if_pos hb]
    exact ⟨_, _, _, _, _, rfl, rfl⟩
  · rw [if_neg hb, if_neg hb]
    cases d.buffer <;> exact ⟨_, _, _, _, _, rfl, rfl⟩

/-- The timer of the sample player counts down and starts again at `rate - 1`, with a bit shifted
out. -/
theorem Dmc.clockTimer_withTimer (d : Dmc) (timer : Nat) :
    clockTimer { d with timer } =
      if timer = 0 then { shiftOut d with timer := d.rate - 1 }
      else { d with timer := timer - 1 } := by
  unfold clockTimer
  by_cases h : timer = 0
  · obtain ⟨_, _, _, _, _, hd, ht⟩ := d.shiftOut_eq (d.rate - 1)
    rw [if_neg (Nat.not_lt.2 (Nat.le_of_eq h)), if_pos h, hd]
    exact ht
  · rw [if_pos (Nat.pos_of_ne_zero h), if_neg h]

/-- Shifting a bit out does not change the rate. -/
theorem Dmc.rate_shiftOut (d : Dmc) : d.shiftOut.rate = d.rate := by
  obtain ⟨_, _, _, _, _, hd, -⟩ := d.shiftOut_eq d.timer
  rw [hd]

namespace Channel

variable (c : Channel)

/-- A channel that calls have made has at least one cycle between two expirations. -/
theorem spacing_pos (calls : List Call) : 0 < c.spacing (calls.foldl c.call c.initial) := by
  rcases c with (_ | _ | _ | _) | _
  · exact Nat.succ_pos _
  · exact Nat.succ_pos _
  · exact Nat.succ_pos _
  · obtain ⟨v, hv⟩ := Noise.period_mem calls
    exact Nat.lt_of_lt_of_eq (Period.choose_noise_pos v) hv.symm
  · obtain ⟨v, hv⟩ := Dmc.rate_mem calls
    exact Nat.lt_of_lt_of_eq (Period.choose_delta_pos v) hv.symm

/-- Putting on the timer what is on it changes nothing. -/
theorem withTimer_timer (s : c.State) : c.withTimer s (c.timer s) = s := by
  rcases c with (_ | _ | _ | _) | _ <;> rfl

/-- The timer is what has been put on it. -/
theorem timer_withTimer (s : c.State) (t : Nat) : c.timer (c.withTimer s t) = t := by
  rcases c with (_ | _ | _ | _) | _ <;> rfl

/-- **A cycle of a timer**, the same for all five: one is taken off, or the channel goes on. -/
theorem clockTimer_withTimer (s : c.State) (t : Nat) :
    c.call (c.withTimer s t) .clockTimer =
      if t = 0 then c.withTimer (c.advance s) (c.spacing s - 1) else c.withTimer s (t - 1) := by
  rcases c with (_ | _ | _ | _) | _
  case dmc => exact Dmc.clockTimer_withTimer s t
  all_goals rfl

/-- Going on does not change how far apart the expirations are. -/
theorem spacing_advance (s : c.State) : c.spacing (c.advance s) = c.spacing s := by
  rcases c with (_ | _ | _ | _) | _
  case dmc => exact Dmc.rate_shiftOut s
  all_goals rfl

variable {c} {s : c.State}

/-- **Where a channel is after `n` cycles of its timer.** -/
theorem iterate_clockTimer (h : 0 < c.spacing s) (n : Nat) :
    (fun s => c.call s .clockTimer)^[n] s =
      c.withTimer (c.advance^[expirations (c.spacing s) (c.timer s) n] s)
        (left (c.spacing s) (c.timer s) n) :=
  iterate_timer c.withTimer (fun s => c.spacing s - 1) c.clockTimer_withTimer
    (fun s => by rw [spacing_advance]) (c.withTimer_timer s) (Nat.sub_add_cancel h) n

/-- The timer starts again at one less than the spacing, or falls by one. -/
theorem timer_clockTimer (s : c.State) :
    c.timer (c.call s .clockTimer) = if c.timer s = 0 then c.spacing s - 1 else c.timer s - 1 := by
  have hs := c.clockTimer_withTimer s (c.timer s)
  rw [withTimer_timer] at hs
  rw [hs]
  split_ifs
  · exact timer_withTimer ..
  · exact timer_withTimer ..

/-- No cycle takes anything off a timer at zero. -/
theorem nextTimer?_eq (h : 0 < c.spacing s) :
    c.nextTimer? s = some (c.timer (c.call s .clockTimer)) := by
  have hz :
      c.nextTimer? s = if c.timer s = 0 then (c.spacing s).psub 1 else (c.timer s).psub 1 := by
    rcases c with (_ | _ | _ | _) | _
    case dmc => exact (if_congr Nat.pos_iff_ne_zero rfl rfl).trans (ite_not ..)
    all_goals rfl
  rw [hz, timer_clockTimer]
  split_ifs with ht
  · exact Nat.psub_eq_sub h
  · exact Nat.psub_eq_sub (Nat.pos_of_ne_zero ht)

end Channel

/-! ### A step of a pulse in the sound unit -/

namespace Pulse

variable {p : Pulse} {x : Channel.Call}

/-- Between writes nothing but its timer moves the wave on. -/
theorem call_of_spares (hw : x.isWrite = false) (ht : x ≠ .clockTimer) (p : Pulse) :
    (p.call x).timer = p.timer ∧ (p.call x).step = p.step := by
  cases x with
  | write register v => cases hw
  | clockTimer => exact absurd rfl ht
  | setEnabled _ | clockQuarter | clockHalf | fill _ | clearIrq => exact ⟨rfl, rfl⟩

/-- **A step lasts** until its timer has run out and one cycle more, whatever is done besides. -/
theorem step_foldl_call {calls : List Channel.Call} (hw : ∀ x ∈ calls, x.isWrite = false)
    (hk : calls.count .clockTimer ≤ p.timer + 1) :
    (calls.foldl call p).step =
      if calls.count .clockTimer ≤ p.timer then p.step else (p.step + 1) % 8 := by
  induction calls generalizing p with
  | nil => rfl
  | cons x rest ih =>
    have hrest : ∀ y ∈ rest, y.isWrite = false := fun y hy => hw y (List.mem_cons_of_mem _ hy)
    rw [List.foldl_cons]
    by_cases hx : x = .clockTimer
    · subst hx
      rw [List.count_cons_self] at hk ⊢
      by_cases ht : p.timer = 0
      · -- the step is over, and no cycle of the timer is left
        have hp : p.call .clockTimer =
            { p with timer := p.timerPeriod, step := (p.step + 1) % 8 } := if_pos ht
        have hz : rest.count .clockTimer = 0 := by omega
        rw [hp, ih hrest (by omega), if_pos (by omega), if_neg (by omega)]
      · have hp : p.call .clockTimer = { p with timer := p.timer - 1 } := if_neg ht
        rw [hp, ih hrest (by dsimp only; omega)]
        refine if_congr ?_ rfl rfl
        dsimp only
        omega
    · obtain ⟨ht, hs⟩ := p.call_of_spares (hw x (List.mem_cons_self ..)) hx
      rw [List.count_cons_of_ne hx] at hk ⊢
      rw [ih hrest (by rwa [ht]), ht, hs]

end Pulse

/-- Whether a register is written. -/
def Use.isWrite : Use → Bool
  | write _ _ => true
  | _ => false

/-- One of the two pulse channels. -/
def pulse (a : Apu) : Pulse.Number → Pulse
  | .one => a.pulse1
  | .two => a.pulse2

variable {a : Apu}

/-- Nothing but a cycle clocks the timer of a channel, and between writes nothing else is
written. -/
theorem callsOf_of_spares {c : Channel} {x : Use} (hw : x.isWrite = false) (a : Apu) :
    (∀ y ∈ a.callsOf c x, y.isWrite = false) ∧
      (a.callsOf c x).count .clockTimer = if x = .tick ∧ c.runsIn (a.cycles + 1) then 1 else 0 := by
  have hb (beat : Beat) :
      (∀ y ∈ beat.calls, y.isWrite = false) ∧ beat.calls.count .clockTimer = 0 := by
    cases beat <;> decide
  cases x with
  | write address v => cases hw
  | tick =>
    obtain ⟨hn, hz⟩ := hb (a.beatOf .tick)
    have ht : a.callsOf c .tick =
        (if c.runsIn (a.cycles + 1) then [.clockTimer] else []) ++ (a.beatOf .tick).calls := rfl
    rw [ht, List.count_append, hz, Nat.add_zero]
    by_cases hr : c.runsIn (a.cycles + 1) = true
    · rw [if_pos hr, if_pos ⟨rfl, hr⟩]
      exact ⟨List.forall_mem_cons.2 ⟨rfl, hn⟩, rfl⟩
    · rw [if_neg hr, if_neg fun h => hr h.2]
      exact ⟨hn, rfl⟩
  | fill v =>
    refine ⟨fun y hy => ?_, rfl⟩
    rw [List.mem_singleton.1 hy]
    rfl
  | readStatus | clearSamples => exact ⟨nofun, rfl⟩

/-- Of the uses that write nothing only a cycle is a cycle. -/
theorem cycles_use_of_spares {x : Use} (hw : x.isWrite = false) (a : Apu) :
    (a.use x).cycles = a.cycles + if x = .tick then 1 else 0 := by
  cases x with
  | write address v => cases hw
  | tick => exact cycles_tick a
  | fill v | readStatus | clearSamples => rfl

/-- **Between writes** a run is to a channel at half the clock a run of calls that write nothing
and clock its timer in every second cycle. -/
theorem calls_of_spares {c : Channel} (ht : c ≠ .voice .triangle) (hd : c ≠ .dmc) {uses : List Use}
    (hw : ∀ x ∈ uses, x.isWrite = false) (a : Apu) :
    ∃ calls : List Channel.Call, (a.afterUses uses).channel c = calls.foldl c.call (a.channel c) ∧
      (∀ x ∈ calls, x.isWrite = false) ∧
      calls.count .clockTimer = (a.cycles + uses.count .tick) / 2 - a.cycles / 2 := by
  induction uses generalizing a with
  | nil => exact ⟨[], rfl, nofun, (Nat.sub_self _).symm⟩
  | cons x rest ih =>
    have hx : x.isWrite = false := hw x (List.mem_cons_self ..)
    obtain ⟨calls, hc, hn, hk⟩ := ih (fun y hy => hw y (List.mem_cons_of_mem _ hy)) (a.use x)
    obtain ⟨hxn, hxk⟩ := callsOf_of_spares (c := c) hx a
    refine ⟨a.callsOf c x ++ calls, ?_, ?_, ?_⟩
    · rw [List.foldl_append, ← channel_use]
      exact hc
    · exact fun y hy => (List.mem_append.1 hy).elim (hxn y) (hn y)
    · rw [List.count_append, hxk, hk, cycles_use_of_spares hx, List.count_cons]
      simp only [Channel.runsIn_iff ht hd, beq_iff_eq]
      by_cases hxt : x = .tick
      · simp only [hxt, true_and, if_true]
        split_ifs <;> omega
      · simp only [hxt, false_and, if_false, Nat.zero_add, Nat.add_zero]

/-- In a cycle a pulse hears its timer in every second one, and a beat, which does not reach timer
and step. -/
theorem pulse_tick (a : Apu) (i : Pulse.Number) :
    let p := if (a.cycles + 1) % 2 = 0 then (a.pulse i).clockTimer else a.pulse i
    (a.tick.pulse i).timer = p.timer ∧ (a.tick.pulse i).step = p.step := by
  rw [tick_eq_hear, clockTimers_eq]
  cases i <;> cases a.sequencer.tick.1 <;> exact ⟨rfl, rfl⟩

/-- **A step of a pulse that a cycle has begun** lasts for two cycles more than twice the period
that was there. -/
theorem step_afterUses {i : Pulse.Number} (hb : (a.tick.pulse i).step ≠ (a.pulse i).step)
    {uses : List Use} (hw : ∀ x ∈ uses, x.isWrite = false)
    (hk : uses.count .tick ≤ 2 * ((a.pulse i).timerPeriod + 1)) :
    ((a.tick.afterUses uses).pulse i).step =
      if uses.count .tick < 2 * ((a.pulse i).timerPeriod + 1) then (a.tick.pulse i).step
      else ((a.tick.pulse i).step + 1) % 8 := by
  -- the cycle that begins the step is one in which the timer runs, and it loads the timer
  obtain ⟨ht, hs⟩ := a.pulse_tick i
  have heven : (a.cycles + 1) % 2 = 0 := by
    by_contra hn
    rw [if_neg hn] at hs
    exact hb hs
  have hzero : (a.pulse i).timer = 0 := by
    by_contra hn
    rw [if_pos heven, Pulse.clockTimer, if_neg hn] at hs
    exact hb hs
  rw [if_pos heven, Pulse.clockTimer, if_pos hzero] at ht
  have hcount :
      (a.tick.cycles + uses.count .tick) / 2 - a.tick.cycles / 2 = uses.count .tick / 2 := by
    rw [cycles_tick]
    omega
  have hcalls : ∃ calls : List Channel.Call,
      (a.tick.afterUses uses).pulse i = calls.foldl Pulse.call (a.tick.pulse i) ∧
      (∀ x ∈ calls, x.isWrite = false) ∧ calls.count .clockTimer = uses.count .tick / 2 := by
    rw [← hcount]
    cases i with
    | one => exact calls_of_spares (c := .voice .pulse1) (by decide) (by decide) hw a.tick
    | two => exact calls_of_spares (c := .voice .pulse2) (by decide) (by decide) hw a.tick
  obtain ⟨calls, hc, hn, hk'⟩ := hcalls
  rw [hc, Pulse.step_foldl_call hn (by rw [ht, hk']; dsimp only; omega), ht, hk']
  refine if_congr ?_ rfl rfl
  dsimp only
  omega

/-- **The timers keep time.**  Let any calls lead to a channel, and let `t` be left on its timer.
Then `n` cycles of the timer do nothing else than to make the channel go on, not once if `n` is at
most `t`, and otherwise `1 + (n - 1 - t) / d` times.  Here `d` is one more than the period of a
pulse or of the triangle, and the period that was chosen from the table for the noise and the delta
modulation channel.  No cycle takes anything off a timer at zero.

In the sound unit a step of a pulse lasts for `2 * (period + 1)` cycles if no register is written,
with the period that there was when it began: until then the step is the same, and then it is the
next. -/
theorem timers_keep_time :
    (∀ (c : Channel) (calls : List Channel.Call),
      let s := calls.foldl c.call c.initial
      let t := c.timer s
      let d := c.spacing s
      (∀ n, (fun s => c.call s .clockTimer)^[n] s =
        c.withTimer (c.advance^[if n ≤ t then 0 else 1 + (n - 1 - t) / d] s) (left d t n)) ∧
      c.nextTimer? s = some (c.timer (c.call s .clockTimer))) ∧
    (∀ calls : List Channel.Call,
      (∃ v, (calls.foldl Noise.call {}).period = Period.choose Period.noise v) ∧
        ∃ v, (calls.foldl Dmc.call {}).rate = Period.choose Period.delta v) ∧
    ∀ (a : Apu) (i : Pulse.Number), (a.tick.pulse i).step ≠ (a.pulse i).step →
      ∀ uses : List Use, (∀ x ∈ uses, x.isWrite = false) →
        let n := uses.count .tick
        let lasting := 2 * ((a.pulse i).timerPeriod + 1)
        n ≤ lasting →
        ((a.tick.afterUses uses).pulse i).step =
          if n < lasting then (a.tick.pulse i).step else ((a.tick.pulse i).step + 1) % 8 := by
  refine ⟨fun c calls => ?_, fun calls => ⟨Noise.period_mem calls, Dmc.rate_mem calls⟩, ?_⟩
  · have hd := c.spacing_pos calls
    exact ⟨Channel.iterate_clockTimer hd, Channel.nextTimer?_eq hd⟩
  · exact fun a i hb uses hw => step_afterUses hb hw

/-- The second cycle begins a step of the first pulse, which has been given the period 2.  Six
cycles later it is at the next. -/
theorem timers_keep_time_pulse :
    let a := (ofRate 44100).afterUses [.write 0x4002 0x02, .tick]
    let uses : List Use := [.tick, .tick, .readStatus, .tick, .tick, .tick, .fill 0x55, .tick]
    (a.tick.pulse .one).step ≠ (a.pulse .one).step ∧ (∀ x ∈ uses, x.isWrite = false) ∧
      uses.count .tick = 6 ∧ (a.tick.pulse .one).step = 1 ∧
      ((a.tick.afterUses uses).pulse .one).step = 2 := by
  intro a uses
  have hb : (a.tick.pulse .one).step ≠ (a.pulse .one).step := by decide
  have hw : ∀ x ∈ uses, x.isWrite = false := by decide
  have hs : (a.tick.pulse .one).step = 1 := by decide
  have hlast := timers_keep_time.2.2 a .one hb uses hw (by decide)
  rw [if_neg (by decide), hs] at hlast
  exact ⟨hb, hw, by decide, hs, hlast⟩

end Apu
end Famicom
