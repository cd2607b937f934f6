import SentinelCore.Py.Utf8
import Mathlib.Data.Nat.Digits.Defs

/-!
# Packed binary data

`struct.pack` for little-endian formats of byte strings and unsigned numbers. A number that does not
fit its width is an error; numbers that fit are read back (`fromLittle_littleEndian`).
-/

namespace Py

/-- `n.to_bytes(width, "little")`, without the higher bytes. -/
def littleEndian : (width n : ℕ) → Bytes
  | 0, _ => []
  | width + 1, n => byte n :: littleEndian width (n / 256)

/-- `int.from_bytes(data, "little")`. -/
def fromLittle (data : Bytes) : ℕ := Nat.ofDigits 256 (data.map Fin.val)

@[simp] theorem length_littleEndian (width n : ℕ) : (littleEndian width n).length = width := by
  induction width generalizing n with
  | zero => rfl
  | succ width ih => rw [littleEndian, List.length_cons, ih]

theorem fromLittle_cons (b : Byte) (data : Bytes) :
    fromLittle (b :: data) = b.val + 256 * fromLittle data := by
  unfold fromLittle
  rw [List.map_cons, Nat.ofDigits_cons]

theorem fromLittle_littleEndian {width n : ℕ} (h : n < 256 ^ width) :
    fromLittle (littleEndian width n) = n := by
  induction width generalizing n with
  | zero =>
    rw [pow_zero, Nat.lt_one_iff] at h
    rw [h]
    rfl
  | succ width ih =>
    have hdiv : n / 256 < 256 ^ width := by
      rw [Nat.div_lt_iff_lt_mul (by decide), ← pow_succ]
      exact h
    have hbyte : (byte n).val = n % 256 := rfl
    rw [littleEndian, fromLittle_cons, ih hdiv, hbyte, Nat.mod_add_div]

/-- An item of a format with its argument: `4s`, or `H` and `I` by their widths. -/
inductive StructItem where
  | bytes (width : ℕ) (data : Bytes)
  | uint (width n : ℕ)

namespace StructItem

/-- The number of bytes of the item. -/
def width : StructItem → ℕ
  | .bytes width _ => width
  | .uint width _ => width

/-- The number fits its width; a byte string is cut or filled up. -/
def Fits : StructItem → Prop
  | .bytes _ _ => True
  | .uint width n => n < 256 ^ width

instance (item : StructItem) : Decidable item.Fits := by
  cases item <;> (unfold Fits; infer_instance)

def packed : StructItem → Bytes
  | .bytes width data => data.take width ++ List.replicate (width - data.length) 0
  | .uint width n => littleEndian width n

theorem length_packed (item : StructItem) : item.packed.length = item.width := by
  cases item with
  | bytes width data =>
    rw [packed, List.length_append, List.length_take, List.length_replicate]
    show min width data.length + (width - data.length) = width
    omega
  | uint width n => exact length_littleEndian width n

end StructItem

/-- `struct.pack("<…", …)`, or no value where it raises `struct.error`. -/
def structPack (items : List StructItem) : Option Bytes :=
  if ∀ item ∈ items, item.Fits then some (items.flatMap StructItem.packed) else none

theorem structPack_eq_some {items : List StructItem} {data : Bytes} :
    structPack items = some data ↔
      (∀ item ∈ items, item.Fits) ∧ items.flatMap StructItem.packed = data := by
  unfold structPack
  by_cases h : ∀ item ∈ items, item.Fits
  · rw [if_pos h, Option.some.injEq]
    exact ⟨fun hdata => ⟨h, hdata⟩, And.right⟩
  · rw [if_neg h]
    exact iff_of_false (fun hnone => by cases hnone) fun hfits => h hfits.1

/-- `data[start:start + width]`. -/
def slice (data : Bytes) (start width : ℕ) : Bytes := (data.drop start).take width

/-- The bytes of an item stand behind those of the items before it. -/
theorem slice_packed {items : List StructItem} (i : ℕ) {item : StructItem}
    (hitem : items[i]? = some item) (rest : Bytes) {start : ℕ}
    (hstart : ((items.take i).map StructItem.width).sum = start) :
    slice (items.flatMap StructItem.packed ++ rest) start item.width = item.packed := by
  obtain ⟨hi, hget⟩ := List.getElem?_eq_some_iff.mp hitem
  have hlength : ((items.take i).flatMap StructItem.packed).length = start := by
    rw [List.length_flatMap, ← hstart]
    congr 1
    exact List.map_congr_left fun item _ => item.length_packed
  have hsplit : items.flatMap StructItem.packed = (items.take i).flatMap StructItem.packed ++
      (item.packed ++ (items.drop (i + 1)).flatMap StructItem.packed) := by
    rw [← List.flatMap_cons, ← hget, ← List.drop_eq_getElem_cons hi, ← List.flatMap_append,
      List.take_append_drop]
  unfold slice
  rw [hsplit, List.append_assoc, List.drop_left' hlength, List.append_assoc,
    List.take_left' item.length_packed]

/-- A number that fits its slot is read back from it. -/
theorem fromLittle_slice {items : List StructItem} (i : ℕ) {width n : ℕ}
    (hitem : items[i]? = some (.uint width n)) (hfits : n < 256 ^ width) (rest : Bytes) {start : ℕ}
    (hstart : ((items.take i).map StructItem.width).sum = start) :
    fromLittle (slice (items.flatMap StructItem.packed ++ rest) start width) = n := by
  have hslice := slice_packed i hitem rest hstart
  rw [show slice (items.flatMap StructItem.packed ++ rest) start width = littleEndian width n from hslice,
    fromLittle_littleEndian hfits]

end Py
