import LS8.Fault

/-! # Memory

Memory has 256 cells of one byte. A byte is therefore always an address (`get`, `set`), and the
stack pointer can never leave memory; the program counter has 16 bits and can, so access through it
(`read`, `write`) may fault. -/

namespace LS8

/-- The number of memory cells. -/
def Memory.size : Nat := 256

/-- The contents of the 256 memory cells. -/
@[ext]
structure Memory where
  /-- The cells in the order of their addresses. -/
  cells : Vector UInt8 256
deriving DecidableEq

namespace Memory

/-- Memory with zero in every cell. -/
def zero : Memory := ⟨Vector.replicate 256 0⟩

instance : Inhabited Memory := ⟨zero⟩

/-- The cells as a list, from address 0 on. -/
def toList (m : Memory) : List UInt8 := m.cells.toList

@[simp] theorem length_toList (m : Memory) : m.toList.length = 256 := by simp [toList]

/-! ### Access by a byte address -/

/-- The byte at `a`. -/
def get (m : Memory) (a : UInt8) : UInt8 :=
  have : a.toNat < 256 := a.toNat_lt
  m.cells[a.toNat]

/-- Memory with `v` at `a`. -/
def set (m : Memory) (a v : UInt8) : Memory := ⟨m.cells.set a.toNat v a.toNat_lt⟩

theorem get_set (m : Memory) (a b v : UInt8) :
    (m.set a v).get b = if a = b then v else m.get b := by
  simp [get, set, Vector.getElem_set, UInt8.toNat_inj]

theorem get_set_of_ne (m : Memory) {a b : UInt8} (h : a ≠ b) (v : UInt8) :
    (m.set a v).get b = m.get b := by
  simp [get_set, h]

theorem ext_get {m n : Memory} (h : ∀ a, m.get a = n.get a) : m = n := by
  refine Memory.ext (Vector.ext fun i hi => ?_)
  simpa [get, Nat.mod_eq_of_lt hi] using h (UInt8.ofNat i)

/-! ### Access by a 16-bit address -/

/-- The byte at `address`, if there is such a cell. -/
def peek (m : Memory) (address : UInt16) : Option UInt8 := m.cells[address.toNat]?

/-- The byte at `address`; beyond the last cell, the fault that names the address. -/
def read (m : Memory) (address : UInt16) : Except Fault UInt8 :=
  if h : address.toNat < 256 then .ok m.cells[address.toNat]
  else .error (.addressOutOfRange address)

/-- Memory with `v` at `address`; beyond the last cell, the fault that names the address. -/
def write (m : Memory) (address : UInt16) (v : UInt8) : Except Fault Memory :=
  if h : address.toNat < 256 then .ok ⟨m.cells.set address.toNat v⟩
  else .error (.addressOutOfRange address)

theorem read_of_lt (m : Memory) {address : UInt16} (h : address.toNat < 256) :
    m.read address = .ok (m.get address.toUInt8) := by
  simp [read, get, h, Nat.mod_eq_of_lt h]

theorem read_of_le (m : Memory) {address : UInt16} (h : 256 ≤ address.toNat) :
    m.read address = .error (.addressOutOfRange address) := by
  simp [read, Nat.not_lt.mpr h]

theorem write_of_lt (m : Memory) {address : UInt16} (h : address.toNat < 256) (v : UInt8) :
    m.write address v = .ok (m.set address.toUInt8 v) := by
  simp [write, set, h, Nat.mod_eq_of_lt h]

theorem write_of_le (m : Memory) {address : UInt16} (h : 256 ≤ address.toNat) (v : UInt8) :
    m.write address v = .error (.addressOutOfRange address) := by
  simp [write, Nat.not_lt.mpr h]

/-- A byte is always the address of a cell. -/
theorem read_toUInt16 (m : Memory) (a : UInt8) : m.read a.toUInt16 = .ok (m.get a) := by
  have h : a.toUInt16.toNat < 256 := a.toNat_toUInt16 ▸ a.toNat_lt
  rw [read_of_lt m h, UInt8.toUInt8_toUInt16]

theorem write_toUInt16 (m : Memory) (a v : UInt8) : m.write a.toUInt16 v = .ok (m.set a v) := by
  have h : a.toUInt16.toNat < 256 := a.toNat_toUInt16 ▸ a.toNat_lt
  rw [write_of_lt m h, UInt8.toUInt8_toUInt16]

end Memory

end LS8
