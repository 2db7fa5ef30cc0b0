import Mathlib.Algebra.Ring.Nat
import ZipLog.Lib.Word

set_option autoImplicit false

namespace Layout

open Word

-- A packed struct: its fields one after the other, each a number of a width.
def pack : List (Nat × Nat) → List UInt8
  | [] => []
  | field :: fields => encode field.1 field.2 ++ pack fields

def unpack : List Nat → List UInt8 → List Nat
  | [], _ => []
  | width :: widths, bytes => decode (bytes.take width) :: unpack widths (bytes.drop width)

def Fits (fields : List (Nat × Nat)) : Prop := ∀ field ∈ fields, field.2 < 256 ^ field.1

instance (fields : List (Nat × Nat)) : Decidable (Fits fields) := inferInstanceAs (Decidable (∀ field ∈ fields, field.2 < 256 ^ field.1))

@[simp] theorem pack_length (fields : List (Nat × Nat)) : (pack fields).length = (fields.map Prod.fst).sum := by
  induction fields with
  | nil => rfl
  | cons field fields ih => rw [pack, List.length_append, encode_length, ih, List.map_cons, List.sum_cons]

-- What was packed is read back, whatever lies behind it.
theorem unpack_pack (fields : List (Nat × Nat)) (fits : Fits fields) (rest : List UInt8) :
    unpack (fields.map Prod.fst) (pack fields ++ rest) = fields.map Prod.snd := by
  induction fields with
  | nil => rfl
  | cons field fields ih =>
      have first := fits field (List.mem_cons_self ..)
      have others := ih (fun other member => fits other (List.mem_cons_of_mem _ member))
      rw [List.map_cons, List.map_cons, unpack, pack, List.append_assoc, List.take_left' (encode_length _ _),
        List.drop_left' (encode_length _ _), decode_encode _ _ first, others]

theorem zip_fits (bound : Nat) (widths values : List Nat) (wide : ∀ width ∈ widths, bound ≤ 256 ^ width)
    (small : ∀ value ∈ values, value < bound) : Fits (widths.zip values) := by
  intro field member
  obtain ⟨width, value⟩ := field
  obtain ⟨first, second⟩ := List.of_mem_zip member
  exact Nat.lt_of_lt_of_le (small value second) (wide width first)

-- A trailing array: its elements one after the other.
def packAll : List (List (Nat × Nat)) → List UInt8
  | [] => []
  | element :: elements => pack element ++ packAll elements

def unpackAll (widths : List Nat) : Nat → List UInt8 → List (List Nat)
  | 0, _ => []
  | count + 1, bytes => unpack widths bytes :: unpackAll widths count (bytes.drop widths.sum)

-- The elements all have the fields of the given widths.
def Shaped (widths : List Nat) (elements : List (List (Nat × Nat))) : Prop :=
  ∀ element ∈ elements, element.map Prod.fst = widths ∧ Fits element

theorem pack_all_length (widths : List Nat) (elements : List (List (Nat × Nat)))
    (shaped : ∀ element ∈ elements, element.map Prod.fst = widths) : (packAll elements).length = elements.length * widths.sum := by
  induction elements with
  | nil => rw [packAll, List.length_nil, List.length_nil, Nat.zero_mul]
  | cons element elements ih =>
      have first := shaped element (List.mem_cons_self ..)
      have others := ih (fun other member => shaped other (List.mem_cons_of_mem _ member))
      rw [packAll, List.length_append, pack_length, first, others, List.length_cons, Nat.succ_mul, Nat.add_comm]

theorem unpack_all_pack (widths : List Nat) (elements : List (List (Nat × Nat))) (shaped : Shaped widths elements) (rest : List UInt8) :
    unpackAll widths elements.length (packAll elements ++ rest) = elements.map (fun element => element.map Prod.snd) := by
  induction elements with
  | nil => rfl
  | cons element elements ih =>
      obtain ⟨same, fits⟩ := shaped element (List.mem_cons_self ..)
      have others := ih (fun other member => shaped other (List.mem_cons_of_mem _ member))
      have width : (pack element).length = widths.sum := by rw [pack_length, same]
      have first := unpack_pack element fits (packAll elements ++ rest)
      rw [same] at first
      rw [List.length_cons, unpackAll, packAll, List.append_assoc, first, List.drop_left' width, others, List.map_cons]

end Layout
