import LS8.Image
import LS8.Machine
import Mathlib.Data.Nat.Notation

/-! # The machine: loading

A byte that has a cell goes into it, and a program goes byte by byte into the cells from its address
on. Of the machine nothing but memory changes, whether the program fits or not. The first byte of a
program that can be missing a cell is the one at address 256, so however long a program is, the
bytes behind that are not looked at and none of them can take the place of an earlier one.

* `exists_loadFrom_eq`: loading changes memory only.
* `result_loadFrom`: whether it succeeds, which is a matter of length only.
* `toList_loadFrom`: what memory holds then, whether the program has ended within it or not.
* `loadProgram_eq_loadOffsets`: how the addresses behind memory are computed does not matter.
* `loads_what_fits`: programs from address 0 on, images, and programs over programs. -/

namespace LS8

/-! ### Memory as a list -/

namespace Memory

theorem toList_injective : Function.Injective toList := fun _ _ h =>
  Memory.ext (Vector.toList_inj.mp h)

theorem toList_set (m : Memory) {address : UInt16} (h : address.toNat < 256) (b : UInt8) :
    (m.set address.toUInt8 b).toList = m.toList.set address.toNat b := by
  simp only [set, toList, UInt16.toNat_toUInt8, Nat.mod_eq_of_lt h]
  exact Vector.toList_set h

end Memory

namespace Machine

variable {address : UInt16} {bs : List UInt8}

/-! ### What loading changes -/

theorem loadByte_of_lt (m : Machine) {address : UInt16} (h : address.toNat < 256) (b : UInt8) :
    m.loadByte address b = .ok { m with memory := m.memory.set address.toUInt8 b } := by
  rw [loadByte, Memory.write_of_lt m.memory h]
  rfl

theorem loadByte_of_le (m : Machine) {address : UInt16} (h : 256 ≤ address.toNat) (b : UInt8) :
    m.loadByte address b = .error (.addressOutOfRange address) := by
  rw [loadByte, Memory.write_of_le m.memory h]
  rfl

theorem exists_loadFrom_eq (m : Machine) (address : UInt16) (bs : List UInt8) :
    ∃ memory, (m.loadFrom address bs).1 = { m with memory } := by
  induction bs generalizing m address with
  | nil => exact ⟨m.memory, rfl⟩
  | cons b bs ih =>
    rcases Nat.lt_or_ge address.toNat 256 with hlt | hle
    · obtain ⟨memory, hrest⟩ :=
        ih { m with memory := m.memory.set address.toUInt8 b } (address + 1)
      refine ⟨memory, ?_⟩
      rw [loadFrom, loadByte_of_lt m hlt]
      exact hrest
    · refine ⟨m.memory, ?_⟩
      rw [loadFrom, loadByte_of_le m hle]

theorem runState_loadFrom (m : Machine) (address : UInt16) (bs : List UInt8) :
    (m.loadFrom address bs).1.runState = m.runState := by
  obtain ⟨memory, h⟩ := exists_loadFrom_eq m address bs
  rw [h]

/-! ### Whether loading succeeds -/

theorem toNat_address_add_one (h : address.toNat < 256) :
    (address + 1).toNat = address.toNat + 1 := by
  rw [UInt16.toNat_add, UInt16.toNat_one]
  omega

/-- **Loading succeeds if the program ends within memory**; otherwise the first byte behind memory
is missed. -/
theorem result_loadFrom (m : Machine) (h : address.toNat ≤ 256) :
    (m.loadFrom address bs).2 =
      if address.toNat + bs.length ≤ 256 then .ok () else .error (.addressOutOfRange 256) := by
  induction bs generalizing m address with
  | nil => exact (if_pos h).symm
  | cons b bs ih =>
    rcases Nat.lt_or_eq_of_le h with hlt | heq
    · have hnext := toNat_address_add_one hlt
      rw [loadFrom, loadByte_of_lt m hlt]
      refine (ih _ (by omega)).trans ?_
      rw [hnext, List.length_cons, Nat.add_right_comm, Nat.add_assoc]
    · -- there is no cell for the next byte
      have hend : address = 256 := UInt16.toNat_inj.mp heq
      rw [loadFrom, loadByte_of_le m (Nat.le_of_eq heq.symm), if_neg (by simp [heq]), hend]

/-! ### What memory holds -/

/-- **As much of a program as there are cells for** stands in memory then, from its address on. -/
theorem toList_loadFrom (m : Machine) (h : address.toNat ≤ 256) :
    (m.loadFrom address bs).1.memory.toList =
      m.memory.toList.take address.toNat ++ bs.take (256 - address.toNat) ++
        m.memory.toList.drop (address.toNat + bs.length) := by
  induction bs generalizing m address with
  | nil => simp [loadFrom]
  | cons b bs ih =>
    have hlen : m.memory.toList.length = 256 := m.memory.length_toList
    rcases Nat.lt_or_ge address.toNat 256 with hlt | hle
    · have hnext := toNat_address_add_one hlt
      have htake : (m.memory.toList.set address.toNat b).take (address.toNat + 1) =
          m.memory.toList.take address.toNat ++ [b] := by
        rw [List.take_add_one, List.take_set_of_le (Nat.le_refl _), List.getElem?_set_self (by omega)]
        rfl
      have hdrop : (m.memory.toList.set address.toNat b).drop (address.toNat + 1 + bs.length) =
          m.memory.toList.drop (address.toNat + 1 + bs.length) :=
        List.drop_set_of_lt (by omega)
      rw [loadFrom, loadByte_of_lt m hlt]
      simp only
      rw [ih _ (by omega), Memory.toList_set _ hlt, hnext, htake, hdrop, List.append_assoc _ [b],
        show 256 - address.toNat = 256 - (address.toNat + 1) + 1 by omega, List.take_succ_cons,
        List.length_cons, Nat.add_right_comm]
      rfl
    · -- there is no cell left, and none of the bytes is loaded
      have hall : m.memory.toList.take address.toNat = m.memory.toList :=
        List.take_of_length_le (by omega)
      have hrest : m.memory.toList.drop (address.toNat + (b :: bs).length) = [] :=
        List.drop_of_length_le (by omega)
      rw [loadFrom, loadByte_of_le m hle, hall, hrest, Nat.sub_eq_zero_of_le hle]
      simp

/-! ### Offsets -/

/-- The address of the byte at an offset of a program. All offsets that are no 16-bit address share
the last one. -/
def offsetAddress (offset : ℕ) : UInt16 := UInt16.ofNat (min offset 65535)

theorem toNat_offsetAddress (offset : ℕ) : (offsetAddress offset).toNat = min offset 65535 :=
  UInt16.toNat_ofNat_of_lt' (Nat.lt_of_le_of_lt (Nat.min_le_right _ _) (by decide))

/-- The machine with bytes at the addresses of their offsets, up to the first that has no cell. -/
def loadOffsets (m : Machine) : List (UInt8 × ℕ) → Machine × Except Fault Unit
  | [] => (m, .ok ())
  | (b, offset) :: bs =>
    match m.loadByte (offsetAddress offset) b with
    | .error cause => (m, .error cause)
    | .ok loaded => loaded.loadOffsets bs

theorem loadFrom_eq_loadOffsets (m : Machine) {offset : ℕ} (h : offset ≤ 256) :
    m.loadFrom (offsetAddress offset) bs = m.loadOffsets (bs.zipIdx offset) := by
  induction bs generalizing m offset with
  | nil => rfl
  | cons b bs ih =>
    have haddress : (offsetAddress offset).toNat = offset := by
      rw [toNat_offsetAddress]
      omega
    rw [List.zipIdx_cons, loadFrom, loadOffsets]
    rcases Nat.lt_or_eq_of_le h with hlt | rfl
    · have hnext : offsetAddress offset + 1 = offsetAddress (offset + 1) := by
        refine UInt16.toNat_inj.mp ?_
        rw [toNat_address_add_one (by omega), haddress, toNat_offsetAddress]
        omega
      rw [loadByte_of_lt m (by omega), hnext]
      exact ih _ hlt
    · -- both stop here, far below the offsets that share an address
      rw [loadByte_of_le m (Nat.le_of_eq haddress.symm)]

/-- **No byte of a program stands in for another.** Addresses may as well be computed from offsets,
with all that are too large taken together at the last address. -/
theorem loadProgram_eq_loadOffsets (m : Machine) (program : List UInt8) :
    m.loadProgram program = m.loadOffsets program.zipIdx :=
  m.loadFrom_eq_loadOffsets (Nat.zero_le 256)

/-! ### Programs -/

theorem result_loadProgram (m : Machine) (program : List UInt8) :
    (m.loadProgram program).2 =
      if program.length ≤ 256 then .ok () else .error (.addressOutOfRange 256) := by
  have hstart : (0 : UInt16).toNat ≤ 256 := Nat.zero_le 256
  refine (m.result_loadFrom hstart).trans ?_
  rw [UInt16.toNat_zero, Nat.zero_add]

theorem toList_loadProgram (m : Machine) (program : List UInt8) :
    (m.loadProgram program).1.memory.toList =
      program.take 256 ++ m.memory.toList.drop program.length := by
  have hstart : (0 : UInt16).toNat ≤ 256 := Nat.zero_le 256
  refine (m.toList_loadFrom hstart).trans ?_
  rw [UInt16.toNat_zero, List.take_zero, List.nil_append, Nat.sub_zero, Nat.zero_add]

/-- **Loading writes what fits.** On any machine, a program can be loaded exactly if it has at most
256 bytes, and then stands in front of what memory has held behind it. A longer program, by however
much, misses address 256 and leaves its first 256 bytes. Nothing but memory changes. So every image
can be loaded, and a program over another leaves what the other has put behind its end. -/
theorem loads_what_fits :
    (∀ (m : Machine) (program : List UInt8),
      ((m.loadProgram program).2 = .ok () ↔ program.length ≤ 256) ∧
      (program.length ≤ 256 → (m.loadProgram program).1.memory.toList =
        program ++ m.memory.toList.drop program.length) ∧
      (256 < program.length → (m.loadProgram program).2 = .error (.addressOutOfRange 256) ∧
        (m.loadProgram program).1.memory.toList = program.take 256) ∧
      (m.loadProgram program).1 = { m with memory := (m.loadProgram program).1.memory } ∧
      m.loadProgram program = m.loadOffsets program.zipIdx) ∧
    (∀ (text : List Char) (image : List UInt8), Image.parse text = .ok image →
      ∀ m : Machine, (m.loadProgram image).2 = .ok ()) ∧
    ∀ (m : Machine) (a b : List UInt8), a.length ≤ 256 →
      ((m.loadProgram b).1.loadProgram a).1.memory.toList =
        a ++ (m.loadProgram b).1.memory.toList.drop a.length := by
  have hfits : ∀ (m : Machine) {program : List UInt8}, program.length ≤ 256 →
      (m.loadProgram program).1.memory.toList = program ++ m.memory.toList.drop program.length := by
    intro m program h
    rw [toList_loadProgram, List.take_of_length_le h]
  refine ⟨fun m program => ⟨?_, hfits m, fun h => ⟨?_, ?_⟩, ?_, ?_⟩, ?_, ?_⟩
  · rw [result_loadProgram]
    by_cases h : program.length ≤ 256
    · rw [if_pos h]
      exact iff_of_true rfl h
    · rw [if_neg h]
      exact iff_of_false (by simp) h
  · rw [result_loadProgram, if_neg (Nat.not_le.mpr h)]
  · have hnone : m.memory.toList.drop program.length = [] :=
      List.drop_of_length_le (by rw [Memory.length_toList]; omega)
    rw [toList_loadProgram, hnone, List.append_nil]
  · obtain ⟨memory, hload⟩ := m.exists_loadFrom_eq 0 program
    rw [loadProgram, hload]
  · exact m.loadProgram_eq_loadOffsets program
  · intro text image hparse m
    rw [result_loadProgram]
    exact if_pos (Image.length_le_of_parse hparse)
  · intro m a b ha
    exact hfits _ ha

/-- A program of more bytes than there are 16-bit addresses, an image, and two bytes over three. -/
theorem loads_what_fits_overlong :
    (Machine.new.loadProgram (List.replicate 65537 7)).2 = .error (.addressOutOfRange 256) ∧
      (Machine.new.loadProgram (List.replicate 65537 7)).1.memory.toList = List.replicate 256 7 ∧
      Image.parse "10000010 # LDI\n101".toList = .ok [0x82, 5] ∧
      (Machine.new.loadProgram [0x82, 5]).2 = .ok () ∧
      (Machine.new.loadProgram [1, 2, 3]).1.memory.toList = 1 :: 2 :: 3 :: List.replicate 253 0 ∧
      ((Machine.new.loadProgram [1, 2, 3]).1.loadProgram [4, 5]).1.memory.toList =
        4 :: 5 :: 3 :: List.replicate 253 0 := by
  obtain ⟨hload, hparsed, hover⟩ := loads_what_fits
  have hlong : 256 < (List.replicate 65537 (7 : UInt8)).length := by
    rw [List.length_replicate]
    omega
  obtain ⟨hmissed, hfirst⟩ := (hload Machine.new _).2.2.1 hlong
  have htake : (List.replicate 65537 (7 : UInt8)).take 256 = List.replicate 256 7 := by
    rw [List.take_replicate]
    rfl
  have himage : Image.parse "10000010 # LDI\n101".toList = .ok [0x82, 5] := rfl
  have hthree := (hload Machine.new [1, 2, 3]).2.1 (by decide)
  have htwo := hover Machine.new [4, 5] [1, 2, 3] (by decide)
  rw [hthree] at htwo
  exact ⟨hmissed, hfirst.trans htake, himage, hparsed _ _ himage _, hthree, htwo⟩

end Machine

end LS8
