import LS8.Fault

/-! # Registers

There are eight byte registers R0 to R7. R7 is the stack pointer: it is an ordinary register for
every instruction, and PUSH, POP, CALL and RET move it besides. -/

namespace LS8

/-- One of the registers R0 to R7. -/
abbrev Register := Fin 8

namespace Register

/-- R7, the stack pointer. -/
def sp : Register := 7

/-- The register that an operand byte names; bytes above 7 name none. -/
def ofOperand (b : UInt8) : Except Fault Register :=
  if h : b.toNat < 8 then .ok ⟨b.toNat, h⟩ else .error (.registerOutOfRange b)

theorem ofOperand_eq_ok_iff {b : UInt8} {r : Register} :
    ofOperand b = .ok r ↔ b.toNat = r.val := by
  unfold ofOperand
  split
  · simp [Fin.ext_iff]
  · have := r.isLt
    simp only [reduceCtorEq, false_iff]
    omega

theorem ofOperand_eq_error_iff {b : UInt8} {c : Fault} :
    ofOperand b = .error c ↔ 8 ≤ b.toNat ∧ c = .registerOutOfRange b := by
  unfold ofOperand
  split
  · simp; omega
  · simp only [Except.error.injEq]
    exact ⟨fun h => ⟨by omega, h.symm⟩, fun h => h.2.symm⟩

end Register

/-- The contents of the eight registers. -/
@[ext]
structure RegisterFile where
  /-- The values of R0 to R7. -/
  values : Vector UInt8 8
deriving DecidableEq

namespace RegisterFile

/-- Where the stack pointer starts unless a machine is configured otherwise. -/
def stackPointerReset : UInt8 := 0xF4

/-- The registers as a list, from R0 on. -/
def toList (f : RegisterFile) : List UInt8 := f.values.toList

@[simp] theorem length_toList (f : RegisterFile) : f.toList.length = 8 := by simp [toList]

/-- The value of `r`. -/
def get (f : RegisterFile) (r : Register) : UInt8 := f.values[r]

/-- The registers with `v` in `r`. -/
def set (f : RegisterFile) (r : Register) (v : UInt8) : RegisterFile := ⟨f.values.set r v⟩

/-- The value of the stack pointer. -/
def sp (f : RegisterFile) : UInt8 := f.get .sp

/-- The registers with `v` as the stack pointer. -/
def setSp (f : RegisterFile) (v : UInt8) : RegisterFile := f.set .sp v

/-- The registers with the stack pointer one lower, modulo 256. -/
def lowerSp (f : RegisterFile) : RegisterFile := f.setSp (f.sp - 1)

/-- The registers with the stack pointer one higher, modulo 256. -/
def raiseSp (f : RegisterFile) : RegisterFile := f.setSp (f.sp + 1)

/-- Zero in every register but the stack pointer, which holds `v`. -/
def withStackPointer (v : UInt8) : RegisterFile := setSp ⟨Vector.replicate 8 0⟩ v

/-- The registers of a machine that is not configured otherwise. -/
def initial : RegisterFile := withStackPointer stackPointerReset

instance : Inhabited RegisterFile := ⟨initial⟩

theorem get_set (f : RegisterFile) (r s : Register) (v : UInt8) :
    (f.set r v).get s = if r = s then v else f.get s := by
  simp [get, set, Vector.getElem_set, Fin.ext_iff]

@[simp] theorem get_set_self (f : RegisterFile) (r : Register) (v : UInt8) :
    (f.set r v).get r = v := by
  simp [get_set]

@[simp] theorem sp_setSp (f : RegisterFile) (v : UInt8) : (f.setSp v).sp = v :=
  get_set_self f .sp v

theorem sp_set (f : RegisterFile) (r : Register) (v : UInt8) :
    (f.set r v).sp = if r = .sp then v else f.sp :=
  get_set f r .sp v

@[simp] theorem sp_lowerSp (f : RegisterFile) : f.lowerSp.sp = f.sp - 1 := sp_setSp f _

theorem ext_get {f g : RegisterFile} (h : ∀ r, f.get r = g.get r) : f = g :=
  RegisterFile.ext (Vector.ext fun i hi => h ⟨i, hi⟩)

end RegisterFile

end LS8
