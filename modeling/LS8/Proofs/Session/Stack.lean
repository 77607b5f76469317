import LS8.Proofs.Session.Steps
import LS8.Trace.Event
import LS8.Writer
import Mathlib.Algebra.BigOperators.Intervals

/-! # Sessions: the stack

PUSH and CALL put a byte on the stack, POP and RET take one. Between a step that puts a byte and a
later one that takes one, the *depth* counts the bytes put and not yet taken since. The two steps
are *matched* (`Matched`) if the depth never falls below zero, never reaches 256 and ends at zero,
and if nothing in between writes the stack pointer as an ordinary register.

The invariant that carries the proof is `View.Keeps`: at depth `d` the stack pointer is `d` below
the slot, modulo 256, and the slot still holds its byte. Since `d` stays below 256, the bytes put in
between go to other cells, wherever the stack wraps around.

* `Keeps.next`: every instruction keeps the invariant.
* `Matched.keeps`: so do the steps between two matched ones.
* `taken_eq_put_of_matched`: the byte taken is the byte put, and what follows from that for the stack
  pointer, for CALL with RET and for PUSH with POP. -/

namespace LS8

/-! ### The stack and one instruction -/

namespace Instruction

/-- By how much an instruction deepens the stack. -/
def depthChange : Instruction → ℤ
  | push _ | call _ => 1
  | pop _ | ret => -1
  | _ => 0

/-- The instruction writes the stack pointer as it writes any register. -/
def WritesSp : Instruction → Prop
  | ldi r _ | mul r _ | pop r => r = .sp
  | _ => False

instance : (i : Instruction) → Decidable i.WritesSp
  | ldi r _ | mul r _ | pop r => inferInstanceAs (Decidable (r = .sp))
  | hlt | ret | push _ | prn _ | call _ | jmp _ | jeq _ | jne _ | cmp _ _ => isFalse id

/-- The byte that an instruction puts on the stack. -/
def putByte? (x : View) : Instruction → Option UInt8
  | push r => some (x.lowered r)
  | call _ => some (UInt8.ofNat (x.pc + 2))
  | _ => none

/-- The byte that an instruction takes from the stack. -/
def takenByte? (x : View) : Instruction → Option UInt8
  | pop _ | ret => some (x.cells x.sp)
  | _ => none

variable {x : View} {i : Instruction}

theorem cells_next_of_put (h : i.depthChange = 1) :
    ∃ b, i.putByte? x = some b ∧ (i.next x).cells = Function.update x.cells (x.sp - 1) b := by
  cases i with
  | push r | call r => exact ⟨_, rfl, rfl⟩
  | _ => simp [depthChange] at h

theorem not_writesSp_of_put (h : i.depthChange = 1) : ¬ i.WritesSp := by
  cases i with
  | push r | call r => exact id
  | _ => simp [depthChange] at h

theorem eq_push_or_call_of_put (h : i.depthChange = 1) : (∃ r, i = push r) ∨ ∃ r, i = call r := by
  cases i with
  | push r => exact .inl ⟨r, rfl⟩
  | call r => exact .inr ⟨r, rfl⟩
  | _ => simp [depthChange] at h

theorem eq_pop_or_ret_of_take (h : i.depthChange = -1) : (∃ r, i = pop r) ∨ i = ret := by
  cases i with
  | pop r => exact .inl ⟨r, rfl⟩
  | ret => exact .inr rfl
  | _ => simp [depthChange] at h

theorem takenByte?_of_take (h : i.depthChange = -1) :
    i.takenByte? x = some (x.cells x.sp) := by
  rcases eq_pop_or_ret_of_take h with ⟨r, rfl⟩ | rfl
  · rfl
  · rfl

theorem registers_next_pop (x : View) (r : Register) :
    ((pop r).next x).registers r = if r = .sp then x.cells x.sp + 1 else x.cells x.sp := by
  unfold next
  by_cases hr : r = .sp
  · simp [hr]
  · simp [hr, Function.update_of_ne]

theorem cells_next_of_ne (h : i.depthChange ≠ 1) : (i.next x).cells = x.cells := by
  cases i with
  | push r | call r => exact absurd rfl h
  | _ => rfl

theorem sp_next (h : ¬ i.WritesSp) : (i.next x).sp = x.sp - UInt8.ofInt i.depthChange := by
  have hzero : ∀ v : UInt8, v = v - UInt8.ofInt 0 := fun v => (UInt8.sub_zero v).symm
  cases i with
  | push r | call r => simp [next, View.sp, depthChange]
  | ret => simp [next, View.sp, depthChange]
  | pop r =>
    have hr : r ≠ .sp := h
    simp [next, View.sp, depthChange, hr]
  | ldi r v | mul r b =>
    have hr : .sp ≠ r := Ne.symm h
    simp [next, View.sp, depthChange, Function.update_of_ne hr, ← hzero]
  | _ => simp [next, View.sp, depthChange, ← hzero]

end Instruction

/-! ### The invariant -/

/-- The slot `a` holds `b`, and `d` more bytes lie on the stack above it. -/
structure View.Keeps (x : View) (a b : UInt8) (d : ℤ) : Prop where
  sp : x.sp = a - UInt8.ofInt d
  cell : x.cells a = b

theorem View.Keeps.top {x : View} {a b : UInt8} (h : x.Keeps a b 0) :
    x.sp = a ∧ x.cells x.sp = b := by
  have hsp : x.sp = a := h.sp.trans (UInt8.sub_zero a)
  exact ⟨hsp, by rw [hsp, h.cell]⟩

/-- A byte put on top of fewer than 255 others does not hit the slot below them. -/
theorem sub_ofInt_sub_one_ne (a : UInt8) {d : ℤ} (h0 : 0 ≤ d) (h : d < 255) :
    a - UInt8.ofInt d - 1 ≠ a := by
  intro heq
  have hd : UInt8.ofInt d = UInt8.ofNat d.toNat := by
    rw [UInt8.ofInt, Int.emod_eq_of_lt h0 (by omega)]
  rw [hd, ← UInt8.toNat_inj] at heq
  have ha := a.toNat_lt
  have hn : (UInt8.ofNat d.toNat).toNat = d.toNat := by
    rw [UInt8.toNat_ofNat']
    omega
  rw [UInt8.toNat_sub, UInt8.toNat_sub, hn, UInt8.toNat_one] at heq
  omega

/-- **Every instruction keeps the slot**, as long as the depth stays below 256. -/
theorem View.Keeps.next {x : View} {a b : UInt8} {d : ℤ} {i : Instruction} (h : x.Keeps a b d)
    (hi : ¬ i.WritesSp) (h0 : 0 ≤ d) (h255 : d + i.depthChange ≤ 255) :
    (i.next x).Keeps a b (d + i.depthChange) := by
  refine ⟨?_, ?_⟩
  · rw [Instruction.sp_next hi, h.sp, UInt8.ofInt_add]
    grind
  · by_cases hput : i.depthChange = 1
    · obtain ⟨v, -, hcells⟩ := Instruction.cells_next_of_put (x := x) hput
      rw [hcells, h.sp, Function.update_of_ne, h.cell]
      exact (sub_ofInt_sub_one_ne a h0 (by omega)).symm
    · rw [Instruction.cells_next_of_ne hput, h.cell]

/-! ### Matched steps -/

namespace Session

variable {σ τ : Type} [TraceSink τ] [OutputPort σ]

/-- The depth just before step `k`, counted from just after step `i`. -/
def depth (s : Session σ τ) (i k : ℕ) : ℤ :=
  ∑ l ∈ Finset.Ico (i + 1) k, (s.after l).retired?.elim 0 Instruction.depthChange

/-- **Steps `i` and `j` are matched:** step `i` retires `put` and puts a byte on the stack, step `j`
retires `take` and takes one, and in between only the stack moves the stack pointer and the depth
stays from 0 to 255 and comes back to 0. -/
structure Matched (s : Session σ τ) (i j : ℕ) (put take : Instruction) : Prop where
  lt : i < j
  retires_put : (s.after i).retired? = some put
  puts : put.depthChange = 1
  retires_take : (s.after j).retired? = some take
  takes : take.depthChange = -1
  spFree : ∀ k < j, i < k → ∀ x ∈ (s.after k).retired?, ¬ x.WritesSp
  depth_mem : ∀ k ≤ j, i < k → 0 ≤ s.depth i k ∧ s.depth i k ≤ 255
  depth_eq : s.depth i j = 0

instance (s : Session σ τ) (i j : ℕ) (put take : Instruction) :
    Decidable (s.Matched i j put take) :=
  decidable_of_iff
    (i < j ∧ (s.after i).retired? = some put ∧ put.depthChange = 1 ∧
      (s.after j).retired? = some take ∧ take.depthChange = -1 ∧
      (∀ k < j, i < k → ∀ x ∈ (s.after k).retired?, ¬ x.WritesSp) ∧
      (∀ k ≤ j, i < k → 0 ≤ s.depth i k ∧ s.depth i k ≤ 255) ∧ s.depth i j = 0)
    ⟨fun ⟨h1, h2, h3, h4, h5, h6, h7, h8⟩ => ⟨h1, h2, h3, h4, h5, h6, h7, h8⟩,
      fun ⟨h1, h2, h3, h4, h5, h6, h7, h8⟩ => ⟨h1, h2, h3, h4, h5, h6, h7, h8⟩⟩

theorem depth_self (s : Session σ τ) (i : ℕ) : s.depth i (i + 1) = 0 := by simp [depth]

theorem depth_succ (s : Session σ τ) {i k : ℕ} (h : i < k) {x : Instruction}
    (hx : (s.after k).retired? = some x) : s.depth i (k + 1) = s.depth i k + x.depthChange := by
  unfold depth
  rw [Finset.sum_Ico_succ_top h, hx]
  rfl

section Matched
variable {s : Session σ τ} {i j : ℕ} {put take : Instruction} (h : s.Matched i j put take)
include h

theorem Matched.exists_retired? {k : ℕ} (hk : k ≤ j) : ∃ x, (s.after k).retired? = some x :=
  Session.exists_retired? (retired_of_le hk (retired?_eq_some_iff.mp h.retires_take).1)

/-- **The slot is kept from one matched step to the other.** -/
theorem Matched.keeps {b : UInt8} (hb : put.putByte? (s.after i).machine.view = some b) {k : ℕ}
    (hik : i + 1 ≤ k) (hkj : k ≤ j) :
    (s.after k).machine.view.Keeps ((s.after i).machine.view.sp - 1) b (s.depth i k) := by
  induction k, hik using Nat.le_induction with
  | base =>
    -- right after the byte has been put
    obtain ⟨v, hv, hcells⟩ := Instruction.cells_next_of_put (x := (s.after i).machine.view) h.puts
    obtain rfl := Option.some.inj (hb.symm.trans hv)
    have hput := Instruction.not_writesSp_of_put h.puts
    rw [after_succ, view_of_retired? h.retires_put, depth_self]
    refine ⟨?_, ?_⟩
    · rw [Instruction.sp_next hput, h.puts, UInt8.ofInt_one]
      exact (UInt8.sub_zero _).symm
    · rw [hcells, Function.update_self]
  | succ k hik ih =>
    obtain ⟨x, hx⟩ := h.exists_retired? (show k ≤ j by omega)
    have hlow := h.depth_mem k (by omega) (by omega)
    have hhigh := h.depth_mem (k + 1) hkj (by omega)
    rw [depth_succ s (by omega) hx] at hhigh ⊢
    rw [after_succ, view_of_retired? hx]
    exact (ih (by omega)).next (h.spFree k (by omega) (by omega) x hx) hlow.1 hhigh.2

theorem Matched.exists_slot :
    ∃ b, put.putByte? (s.after i).machine.view = some b ∧
      (s.after (i + 1)).machine.view.Keeps ((s.after i).machine.view.sp - 1) b 0 ∧
      (s.after j).machine.view.Keeps ((s.after i).machine.view.sp - 1) b 0 := by
  obtain ⟨b, hb, -⟩ := Instruction.cells_next_of_put (x := (s.after i).machine.view) h.puts
  have hbelow := h.keeps hb le_rfl h.lt
  have hslot := h.keeps hb h.lt le_rfl
  rw [depth_self] at hbelow
  rw [h.depth_eq] at hslot
  exact ⟨b, hb, hbelow, hslot⟩

theorem Matched.view_after :
    (s.after (j + 1)).machine.view = take.next (s.after j).machine.view := by
  rw [after_succ, view_of_retired? h.retires_take]

theorem Matched.sp_after (hpop : take ≠ .pop .sp) :
    (s.after (j + 1)).machine.view.sp = (s.after i).machine.view.sp := by
  obtain ⟨b, -, -, hslot⟩ := h.exists_slot
  have hfree : ¬ take.WritesSp := by
    rcases Instruction.eq_pop_or_ret_of_take h.takes with ⟨r, rfl⟩ | rfl
    · rintro rfl
      exact hpop rfl
    · exact id
  rw [h.view_after, Instruction.sp_next hfree, h.takes, UInt8.ofInt_neg_one, hslot.top.1,
    UInt8.sub_neg, UInt8.sub_add_cancel]

theorem Matched.pc_after {r : Register} (hput : put = .call r) (htake : take = .ret) :
    (s.after (j + 1)).machine.view.pc = (s.after i).machine.view.pc + 2 := by
  subst hput htake
  obtain ⟨b, hb, -, hslot⟩ := h.exists_slot
  obtain rfl := Option.some.inj hb
  have hlt : (s.after i).machine.view.pc + 2 < 256 := add_two_lt_of_retired?_call h.retires_put
  rw [h.view_after, Instruction.next, hslot.top.2, UInt8.toNat_ofNat']
  exact Nat.mod_eq_of_lt hlt

theorem Matched.register_after {r : Register} (hput : put = .push r) (htake : take = .pop r) :
    (s.after (j + 1)).machine.view.registers r = (s.after i).machine.view.registers r := by
  subst hput htake
  obtain ⟨b, hb, -, hslot⟩ := h.exists_slot
  obtain rfl := Option.some.inj hb
  rw [h.view_after, Instruction.registers_next_pop, hslot.top.2]
  unfold View.lowered
  by_cases hr : r = .sp
  · -- PUSH R7 has stored the lowered stack pointer, and POP R7 adds one to it
    rw [if_pos hr, if_pos hr, UInt8.sub_add_cancel, hr]
    rfl
  · rw [if_neg hr, if_neg hr]

end Matched

/-- **A matched step takes the byte that was put**, into the register of a POP or the program counter
at a RET. The stack pointer comes back to where it was, unless POP R7 sets it; RET goes on two
addresses after its CALL; POP gives the register of its PUSH the value back, even if that is the
stack pointer. -/
theorem taken_eq_put_of_matched (s : Session σ τ) (i j : ℕ) (put take : Instruction)
    (h : s.Matched i j put take) :
    (∃ b, put.putByte? (s.after i).machine.view = some b ∧
      (s.after (i + 1)).machine.memory.get (s.after (i + 1)).machine.registers.sp = b ∧
      take.takenByte? (s.after j).machine.view = some b ∧
      (∀ r, take = .pop r →
        (s.after (j + 1)).machine.registers.get r = if r = .sp then b + 1 else b) ∧
      (take = .ret → (s.after (j + 1)).machine.pc.toNat = b.toNat)) ∧
    (take ≠ .pop .sp →
      (s.after (j + 1)).machine.registers.sp = (s.after i).machine.registers.sp) ∧
    (∀ r, put = .call r → take = .ret →
      (s.after (j + 1)).machine.pc.toNat = (s.after i).machine.pc.toNat + 2) ∧
    (∀ r, put = .push r → take = .pop r →
      (s.after (j + 1)).machine.registers.get r = (s.after i).machine.registers.get r) := by
  obtain ⟨b, hb, hbelow, hslot⟩ := h.exists_slot
  refine ⟨⟨b, hb, hbelow.top.2, ?_, fun r htake => ?_, fun htake => ?_⟩, h.sp_after,
    fun r => h.pc_after, fun r => h.register_after⟩
  · rw [Instruction.takenByte?_of_take h.takes, hslot.top.2]
  · have hview := congrArg (fun x : View => x.registers r) h.view_after
    subst htake
    rw [Instruction.registers_next_pop, hslot.top.2] at hview
    exact hview
  · have hview := congrArg View.pc h.view_after
    subst htake
    rw [Instruction.next, hslot.top.2] at hview
    exact hview

/-- A session whose stack starts at 1: `LDI R1,10; PUSH R7; CALL R1; POP R7; HLT`, and at 10 the
subroutine `PUSH R0; POP R2; RET`. -/
def wrappedCall : Session Writer NoTrace where
  machine :=
    ((Machine.ofConfig { stackPointerReset := 1 }).loadProgram
      [0x82, 1, 10, 0x45, 7, 0x50, 1, 0x46, 7, 0x01, 0x45, 0, 0x46, 2, 0x11]).1
  port := {}
  sink := {}

/-- The stack wraps around inside the call, and PUSH R7 overwrites the first instruction. -/
theorem matched_wrappedCall :
    wrappedCall.Matched 1 6 (.push .sp) (.pop .sp) ∧
      wrappedCall.Matched 2 5 (.call 1) .ret ∧
      (wrappedCall.after 6).machine.pc.toNat = (wrappedCall.after 2).machine.pc.toNat + 2 ∧
      (wrappedCall.after 7).machine.registers.get .sp =
        (wrappedCall.after 1).machine.registers.get .sp := by
  have hpush : wrappedCall.Matched 1 6 (.push .sp) (.pop .sp) := by decide +kernel
  have hcall : wrappedCall.Matched 2 5 (.call 1) .ret := by decide +kernel
  exact ⟨hpush, hcall, (taken_eq_put_of_matched wrappedCall 2 5 _ _ hcall).2.2.1 1 rfl rfl,
    (taken_eq_put_of_matched wrappedCall 1 6 _ _ hpush).2.2.2 .sp rfl rfl⟩

end Session

end LS8
