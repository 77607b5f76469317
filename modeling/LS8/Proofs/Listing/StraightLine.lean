import LS8.Proofs.Listing.Execution
import LS8.Proofs.Session.Footprint
import LS8.Proofs.Session.Progress

/-! # Listings: going straight on

A listing is made before the machine runs, in one sweep over memory. A machine that starts at
address 0 and never transfers control goes through memory as the sweep does, instruction by
instruction, as long as it does not overwrite what it has still to carry out; where it has been it
may overwrite what it likes (`StraightOn`).

The invariant is `drop_listing`: after `n` steps, what a sweep of the memory at the start finds from
the program counter on is the listing without its first `n` rows.

* `StraightOn.fetch_start`: the instructions carried out stood in memory from the start.
* `StraightOn.pc_after`: where the program counter is in the listing.
* `straight_on_follows_listing`: the steps and the rows side by side. -/

namespace LS8.Session

variable {σ τ : Type} [TraceSink τ] [OutputPort σ] {s : Session σ τ} {k n : ℕ}

/-! ### Steps and rows -/

/-- The first `k` steps go straight on through bytes that they have not overwritten. Each of them
retires; none carries out a CALL, RET, JMP or a JEQ or JNE that is taken; and what one of them
fetches, opcode or operand, no PUSH among the steps before it has written. -/
structure StraightOn (s : Session σ τ) (k : ℕ) : Prop where
  retired : ∀ j < k, (s.after j).step.1 = .retired
  straight : ∀ j < k, ¬ (s.after j).Transfers
  fetched : ∀ j < k, ∀ a ∈ (s.after j).machine.fetched, a ∉ s.overwritten j

namespace StraightOn

/-- **What is carried out stood in memory from the start.** -/
theorem fetch_start (h : s.StraightOn k) (hn : n < k) {i : Instruction}
    (hi : (s.after n).retired? = some i) :
    Instruction.fetch s.machine.memory (s.after n).machine.pc = .ok i := by
  have hsame : ∀ a ∈ (s.after n).machine.fetched,
      s.machine.memory.get a = (s.after n).machine.memory.get a := fun a ha =>
    (get_after_of_notMem (h.fetched n hn a ha)).symm
  rw [Machine.fetch_eq_of_agree_fetched hsame]
  exact (retired?_eq_some_iff.mp hi).2

/-- **The listing from row `n` on is what a sweep finds from the program counter on** after `n`
steps. -/
theorem drop_listing (h : s.StraightOn k) (hpc : s.machine.pc = 0) (hn : n ≤ k) :
    (listing s.machine.memory.toList).drop n =
      sweep (s.after n).machine.pc.toNat
        (s.machine.memory.toList.drop (s.after n).machine.pc.toNat) := by
  induction n with
  | zero =>
    rw [after_zero, hpc]
    rfl
  | succ n ih =>
    obtain ⟨i, hi⟩ := exists_retired? (h.retired n hn)
    have hnext := (pc_step_of_not_transfers hi (h.straight n hn)).2
    have hrow := Instruction.at?_of_fetch (h.fetch_start hn hi)
    rw [← List.drop_drop, ih (by omega), sweep_of_at? hrow, after_succ, hnext,
      ← i.length_bytes]
    rfl

theorem getElem?_listing (h : s.StraightOn k) (hpc : s.machine.pc = 0) (hn : n < k)
    {i : Instruction} (hi : (s.after n).retired? = some i) :
    (listing s.machine.memory.toList)[n]? = some (i.row (s.after n).machine.pc) := by
  have hrow := Instruction.at?_of_fetch (h.fetch_start hn hi)
  rw [← List.head?_drop, h.drop_listing hpc (Nat.le_of_lt hn), sweep_of_at? hrow]
  rfl

theorem le_length_listing (h : s.StraightOn k) (hpc : s.machine.pc = 0) :
    k ≤ (listing s.machine.memory.toList).length := by
  cases k with
  | zero => exact Nat.zero_le _
  | succ k =>
    obtain ⟨i, hi⟩ := exists_retired? (h.retired k (Nat.lt_succ_self k))
    exact (List.getElem?_eq_some_iff.mp (h.getElem?_listing hpc (Nat.lt_succ_self k) hi)).1

theorem pc_le (h : s.StraightOn k) (hpc : s.machine.pc = 0) :
    (s.after k).machine.pc.toNat ≤ 256 := by
  cases k with
  | zero =>
    rw [after_zero, hpc]
    decide
  | succ k =>
    have hlast := Nat.lt_succ_self k
    rw [after_succ]
    exact (add_two_le_pc_step (h.retired k hlast) (h.straight k hlast)).2

theorem pc_after (h : s.StraightOn k) (hpc : s.machine.pc = 0) :
    (∃ row, (listing s.machine.memory.toList)[k]? = some row ∧
      (s.after k).machine.pc = row.address) ∨
    (listing s.machine.memory.toList).length = k ∧ (s.after k).machine.pc = 256 := by
  have hdrop := h.drop_listing hpc (Nat.le_refl k)
  cases hrow : Row.at? s.machine.memory.toList (s.after k).machine.pc with
  | some row =>
    rw [sweep_of_at? hrow] at hdrop
    refine .inl ⟨row, ?_, (Row.exists_append_of_ofBytes? hrow).1.symm⟩
    rw [← List.head?_drop, hdrop]
    rfl
  | none =>
    have hend := Row.at?_eq_none_iff.mp hrow
    have hle := h.pc_le hpc
    have hnil : s.machine.memory.toList.drop (s.after k).machine.pc.toNat = [] :=
      Row.ofBytes?_eq_none_iff.mp hrow
    rw [hnil, sweep_nil] at hdrop
    have hlen := List.drop_eq_nil_iff.mp hdrop
    have hpc' : (s.after k).machine.pc = 256 :=
      UInt16.toNat_inj.mp (by change _ = 256; omega)
    exact .inr ⟨Nat.le_antisymm hlen (h.le_length_listing hpc), hpc'⟩

end StraightOn

/-- **Straight on, the steps follow the listing** of the memory at the start. The program counter
before step `j` is the address of row `j`; the step carries out the instruction that this row shows,
under the name that it shows, and the bytes fetched are the bytes of the row. After the last step
the program counter is at the next row, or at 256 if there is none. -/
theorem straight_on_follows_listing (s : Session σ τ) (k : ℕ) (hpc : s.machine.pc = 0)
    (h : s.StraightOn k) :
    (∀ j < k, ∃ row i, (listing s.machine.memory.toList)[j]? = some row ∧
      (s.after j).retired? = some i ∧ row = i.row (s.after j).machine.pc ∧
      (s.after j).machine.pc = row.address ∧ row.mnemonic = i.opcode.mnemonic ∧
      (s.after j).machine.fetched.map (s.after j).machine.memory.get = row.bytes) ∧
    ((∃ row, (listing s.machine.memory.toList)[k]? = some row ∧
        (s.after k).machine.pc = row.address) ∨
      (listing s.machine.memory.toList).length = k ∧ (s.after k).machine.pc = 256) := by
  refine ⟨fun j hj => ?_, h.pc_after hpc⟩
  obtain ⟨i, hi⟩ := exists_retired? (h.retired j hj)
  have hbytes := Machine.map_get_fetched (retired?_eq_some_iff.mp hi).2
  exact ⟨i.row (s.after j).machine.pc, i, h.getElem?_listing hpc hj hi, hi, rfl, rfl, rfl, hbytes⟩

/-- A session about to carry out `LDI R0,8; PUSH R0; PUSH R0; PRN R0; HLT`. The stack begins at 2,
so the two PUSHes overwrite what has been carried out before them. -/
def pushBehind : Session Writer NoTrace where
  machine :=
    ((Machine.ofConfig { stackPointerReset := 2 }).loadProgram
      [0x82, 0, 8, 0x45, 0, 0x45, 0, 0x47, 0, 0x01]).1
  port := {}
  sink := {}

/-- The PUSHes do not disturb the rest, but the memory that they leave is listed otherwise. -/
theorem straight_on_follows_listing_pushBehind :
    pushBehind.machine.pc = 0 ∧ pushBehind.StraightOn 4 ∧
      (∃ row, (listing pushBehind.machine.memory.toList)[3]? = some row ∧
        row = (Instruction.prn 0).row 7) ∧
      (∃ row, (listing pushBehind.machine.memory.toList)[4]? = some row ∧ row.address = 9) ∧
      Row.at? (pushBehind.after 4).machine.memory.toList 0 = some (.data 0 8) := by
  have hpc : pushBehind.machine.pc = 0 := rfl
  have h : pushBehind.StraightOn 4 := ⟨by decide +kernel, by decide +kernel, by decide +kernel⟩
  obtain ⟨hrows, hend⟩ := straight_on_follows_listing pushBehind 4 hpc h
  have hprn : (pushBehind.after 3).retired? = some (.prn 0) := by decide +kernel
  have h7 : (pushBehind.after 3).machine.pc = 7 := by decide +kernel
  have h9 : (pushBehind.after 4).machine.pc = 9 := by decide +kernel
  obtain ⟨row, i, hrow, hi, heq, -⟩ := hrows 3 (by decide)
  rw [hprn] at hi
  obtain rfl := Option.some.inj hi
  rw [h7] at heq
  refine ⟨hpc, h, ⟨row, hrow, heq⟩, ?_, by decide +kernel⟩
  rcases hend with ⟨row, hrow, haddress⟩ | ⟨-, hbehind⟩
  · exact ⟨row, hrow, haddress.symm.trans h9⟩
  · rw [h9] at hbehind
    exact absurd hbehind (by decide)

end LS8.Session
