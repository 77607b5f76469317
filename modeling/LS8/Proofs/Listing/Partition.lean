import LS8.Proofs.Listing.Rows
import Mathlib.Data.List.Chain

/-! # Listings: the rows of an image

A sweep goes through an image row by row, each row where the one before it ends. It stops at the end
of the image or at the first row that would begin beyond the last 16-bit address; so of a long image
it shows 65536 bytes, or up to two more if a row reaches across that boundary.

The sweep as a loop is `Sweeping.next?`, one pass over a row read from the whole image.

* `ofBytes?_of_sweep_eq_append`: where each row of a sweep begins, and what is read there.
* `Sweeping.ends_sweep`: the loop comes to an end, and its rows are those of the sweep.
* `listing_partitions`: what the rows of an image show of it. -/

namespace LS8

/-! ### Rows -/

theorem Row.length_bytes_of_ofBytes? {address : UInt16} {bytes : List UInt8} {r : Row}
    (h : ofBytes? address bytes = some r) : 1 ≤ r.bytes.length ∧ r.bytes.length ≤ 3 := by
  cases reads_of_ofBytes? h with
  | unknown _ _ => exact ⟨Nat.le_refl 1, Nat.le_of_ble_eq_true rfl⟩
  | cut _ => exact ⟨Nat.le_refl 1, Nat.le_of_ble_eq_true rfl⟩
  | @whole o operands _ hlen =>
    have hle := o.operandCount_le_two
    simp only [List.length_cons]
    omega

theorem Row.at?_ofNat {address : ℕ} (h : address < 65536) (image : List UInt8) :
    at? image (UInt16.ofNat address) = ofBytes? (UInt16.ofNat address) (image.drop address) := by
  rw [at?, UInt16.toNat_ofNat_of_lt' h]

/-! ### Sweeps -/

variable {address : ℕ} {bytes : List UInt8} {r : Row} {rows : List Row}

theorem sweep_eq_cons_iff :
    sweep address bytes = r :: rows ↔
      address < 65536 ∧ Row.ofBytes? (UInt16.ofNat address) bytes = some r ∧
        sweep (address + r.bytes.length) (bytes.drop r.bytes.length) = rows := by
  constructor
  · intro h
    rw [sweep] at h
    split at h
    · cases h
    · next hlt =>
      split at h
      · cases h
      · next row hrow =>
        obtain ⟨rfl, hrest⟩ := List.cons.inj h
        exact ⟨Nat.lt_of_not_le hlt, hrow, hrest⟩
  · rintro ⟨hlt, hrow, rfl⟩
    exact sweep_of_ofBytes? hlt hrow

/-- **Each row of a sweep begins where the rows before it end**, and is read from what stands
there. -/
theorem ofBytes?_of_sweep_eq_append {before after : List Row}
    (h : sweep address bytes = before ++ r :: after) :
    address + (before.flatMap Row.bytes).length < 65536 ∧
      Row.ofBytes? (UInt16.ofNat (address + (before.flatMap Row.bytes).length))
        (bytes.drop (before.flatMap Row.bytes).length) = some r := by
  induction before generalizing address bytes with
  | nil =>
    obtain ⟨hlt, hrow, -⟩ := sweep_eq_cons_iff.mp h
    exact ⟨hlt, hrow⟩
  | cons first before ih =>
    obtain ⟨-, -, hrest⟩ := sweep_eq_cons_iff.mp h
    have hrow := ih hrest
    rwa [List.drop_drop, Nat.add_assoc, ← List.length_append, ← List.flatMap_cons] at hrow

theorem length_sweep_le : (sweep address bytes).length ≤ bytes.length := by
  fun_induction sweep address bytes with
  | case1 address bytes hle => exact Nat.zero_le _
  | case2 address bytes hlt hnone => exact Nat.zero_le _
  | case3 address bytes hlt r hr ih =>
    have hpos := (Row.length_bytes_of_ofBytes? hr).1
    have hlen := congrArg List.length (Row.exists_append_of_ofBytes? hr).2.2
    rw [List.length_append] at hlen
    rw [List.length_cons]
    omega

theorem length_flatMap_bytes_sweep :
    ((sweep address bytes).flatMap Row.bytes).length = bytes.length ∨
      65536 ≤ address + ((sweep address bytes).flatMap Row.bytes).length := by
  fun_induction sweep address bytes with
  | case1 address bytes hle => exact .inr hle
  | case2 address bytes hlt hnone =>
    rw [Row.ofBytes?_eq_none_iff.mp hnone]
    exact .inl rfl
  | case3 address bytes hlt r hr ih =>
    have hlen := congrArg List.length (Row.exists_append_of_ofBytes? hr).2.2
    rw [List.length_append] at hlen
    rw [List.flatMap_cons, List.length_append]
    omega

theorem add_length_flatMap_bytes_sweep_le (h : address ≤ 65538) :
    address + ((sweep address bytes).flatMap Row.bytes).length ≤ 65538 := by
  fun_induction sweep address bytes with
  | case1 address bytes hle => exact h
  | case2 address bytes hlt hnone => exact h
  | case3 address bytes hlt r hr ih =>
    have hle := (Row.length_bytes_of_ofBytes? hr).2
    have hrest := ih (by omega)
    rw [List.flatMap_cons, List.length_append]
    omega

/-! ### The loop -/

/-- Where a sweep stands: the address of the next row, and the rows so far. -/
structure Sweeping where
  address : ℕ
  rows : List Row

namespace Sweeping

/-- One pass through the loop; nothing if the loop is left. -/
def next? (image : List UInt8) (w : Sweeping) : Option Sweeping :=
  if w.address < 65536 then
    (Row.at? image (UInt16.ofNat w.address)).map fun r =>
      ⟨w.address + r.bytes.length, w.rows ++ [r]⟩
  else none

/-- From `w` the loop is left after `n` passes, and leaves `w'`. -/
inductive Ends (image : List UInt8) : ℕ → Sweeping → Sweeping → Prop
  | leave {w : Sweeping} (h : w.next? image = none) : Ends image 0 w w
  | pass {n : ℕ} {w w' w'' : Sweeping} (h : w.next? image = some w')
    (hrest : Ends image n w' w'') : Ends image (n + 1) w w''

theorem ends_sweep {image : List UInt8} (hbytes : bytes = image.drop address) (rows : List Row) :
    Ends image (sweep address bytes).length ⟨address, rows⟩
      ⟨address + ((sweep address bytes).flatMap Row.bytes).length,
        rows ++ sweep address bytes⟩ := by
  fun_induction sweep address bytes generalizing rows with
  | case1 address bytes hle =>
    rw [List.append_nil]
    exact .leave (if_neg (Nat.not_lt.mpr hle))
  | case2 address bytes hlt hnone =>
    rw [hbytes, ← Row.at?_ofNat (Nat.lt_of_not_le hlt)] at hnone
    rw [List.append_nil]
    exact .leave (by simp [next?, hnone])
  | case3 address bytes hlt r hr ih =>
    have hat : Row.at? image (UInt16.ofNat address) = some r := by
      rw [Row.at?_ofNat (Nat.lt_of_not_le hlt), ← hbytes, hr]
    have hnext : next? image ⟨address, rows⟩ = some ⟨address + r.bytes.length, rows ++ [r]⟩ := by
      rw [next?, if_pos (Nat.lt_of_not_le hlt), hat]
      rfl
    have hdrop : bytes.drop r.bytes.length = image.drop (address + r.bytes.length) := by
      rw [hbytes, List.drop_drop]
    have hrest := ih hdrop (rows ++ [r])
    rw [List.append_assoc, Nat.add_assoc, ← List.length_append, ← List.flatMap_cons] at hrest
    exact .pass hnext hrest

end Sweeping

/-! ### Images -/

variable {image : List UInt8}

theorem listing_eq_append {before after : List Row} (h : listing image = before ++ r :: after) :
    r.address.toNat = (before.flatMap Row.bytes).length ∧ Row.at? image r.address = some r := by
  obtain ⟨hlt, hrow⟩ := ofBytes?_of_sweep_eq_append h
  rw [Nat.zero_add] at hlt hrow
  have haddress := (Row.exists_append_of_ofBytes? hrow).1
  refine ⟨?_, ?_⟩
  · rw [haddress, UInt16.toNat_ofNat_of_lt' hlt]
  · rw [haddress, Row.at?_ofNat hlt, hrow]

/-- **A listing partitions the image.** The sweep comes to an end. Its first row has address 0, each
other row the address where the row before it ends; each row is what is read at its address and has
one to three bytes; and the bytes of the rows, one after the other, are the first of the image. They
are all of it if it has no more than 65536 bytes. Of a longer image they are 65536 to 65538 bytes,
up to the first end of a row that is no 16-bit address. -/
theorem listing_partitions (image : List UInt8) :
    ((listing image).length ≤ image.length ∧
      Sweeping.Ends image (listing image).length ⟨0, []⟩
        ⟨((listing image).flatMap Row.bytes).length, listing image⟩) ∧
    (∀ r ∈ (listing image).head?, r.address = 0) ∧
    (listing image).IsChain (fun r r' => r'.address.toNat = r.address.toNat + r.bytes.length) ∧
    (∀ r ∈ listing image,
      Row.at? image r.address = some r ∧ 1 ≤ r.bytes.length ∧ r.bytes.length ≤ 3) ∧
    (listing image).flatMap Row.bytes <+: image ∧
    (image.length ≤ 65536 → (listing image).flatMap Row.bytes = image) ∧
    (65536 < image.length →
      65536 ≤ ((listing image).flatMap Row.bytes).length ∧
      ((listing image).flatMap Row.bytes).length ≤ 65538 ∧
      ∀ k < (listing image).length,
        (((listing image).take k).flatMap Row.bytes).length ≤ 65535) := by
  refine ⟨⟨length_sweep_le, ?_⟩, fun r hr => ?_, ?_, fun r hr => ?_, ?_, fun hlen => ?_,
    fun hlen => ⟨?_, ?_, fun k hk => ?_⟩⟩
  · have hdrop : image = image.drop 0 := List.drop_zero.symm
    have hends := Sweeping.ends_sweep hdrop []
    rwa [Nat.zero_add] at hends
  · obtain ⟨after, hrows⟩ := List.head?_eq_some_iff.mp hr
    have hrows' : listing image = [] ++ r :: after := hrows
    exact UInt16.toNat_inj.mp (listing_eq_append hrows').1
  · refine List.isChain_iff_forall_rel_of_append_cons_cons.mpr fun r r' before after hrows => ?_
    have hrow := (listing_eq_append hrows).1
    have hrows' : listing image = (before ++ [r]) ++ r' :: after := by
      rw [hrows, List.append_assoc, List.singleton_append]
    rw [(listing_eq_append hrows').1, hrow, List.flatMap_append, List.length_append,
      List.flatMap_singleton]
  · obtain ⟨before, after, hrows⟩ := List.append_of_mem hr
    have hat := (listing_eq_append hrows).2
    exact ⟨hat, Row.length_bytes_of_ofBytes? hat⟩
  · obtain ⟨rest, hrest⟩ := exists_append_sweep 0 image
    exact ⟨rest, hrest.symm⟩
  · exact flatMap_bytes_sweep (by rwa [Nat.zero_add])
  · have hend : ((listing image).flatMap Row.bytes).length = image.length ∨
        65536 ≤ 0 + ((listing image).flatMap Row.bytes).length := length_flatMap_bytes_sweep
    omega
  · have hle : 0 + ((listing image).flatMap Row.bytes).length ≤ 65538 :=
      add_length_flatMap_bytes_sweep_le (by decide)
    rwa [Nat.zero_add] at hle
  · have hrows : listing image = (listing image).take k ++ (listing image)[k] :: _ :=
      (List.take_append_drop k _).symm.trans (by rw [List.drop_eq_getElem_cons hk])
    have hlt := (listing image)[k].address.toNat_lt
    rw [(listing_eq_append hrows).1] at hlt
    exact Nat.le_of_lt_succ hlt

/-- The short image ends within an instruction; the long one has one byte too many. -/
theorem listing_partitions_short_long :
    ([0x45, 1, 0x82, 7] : List UInt8).length ≤ 65536 ∧
    (listing [0x45, 1, 0x82, 7]).flatMap Row.bytes = [0x45, 1, 0x82, 7] ∧
    65536 < (List.replicate 65537 (0 : UInt8)).length ∧
    65536 ≤ ((listing (List.replicate 65537 0)).flatMap Row.bytes).length ∧
    ((listing (List.replicate 65537 0)).flatMap Row.bytes).length ≤ 65538 := by
  have hshort : ([0x45, 1, 0x82, 7] : List UInt8).length ≤ 65536 := by decide
  have hlong : 65536 < (List.replicate 65537 (0 : UInt8)).length := by
    rw [List.length_replicate]
    decide
  obtain ⟨-, -, -, -, -, hwhole, -⟩ := listing_partitions [0x45, 1, 0x82, 7]
  obtain ⟨-, -, -, -, -, -, hbeyond⟩ := listing_partitions (List.replicate 65537 0)
  exact ⟨hshort, hwhole hshort, hlong, (hbeyond hlong).1, (hbeyond hlong).2.1⟩

end LS8
