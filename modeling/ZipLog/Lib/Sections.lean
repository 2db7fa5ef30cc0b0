import ZipLog.Lib.Ring

set_option autoImplicit false

namespace Sections

variable {α ε : Type}

-- A buffer in several sections, each at its offset.
def fill (memory : Nat → α) (sections : List (Nat × List α)) : Nat → α :=
  sections.foldl (fun memory part => Ring.write memory part.1 part.2) memory

def Apart (first second : Nat × List α) : Prop :=
  first.1 + first.2.length ≤ second.1 ∨ second.1 + second.2.length ≤ first.1

def readArray (memory : Nat → α) (offset width count : Nat) (decode : List α → ε) : List ε :=
  (List.range count).map (fun i => decode (Ring.read memory (offset + i * width) width))

@[simp] theorem read_length (memory : Nat → α) (offset length : Nat) : (Ring.read memory offset length).length = length := by
  rw [Ring.read, List.length_map, List.length_range]

theorem read_append (memory : Nat → α) (offset first second : Nat) :
    Ring.read memory offset (first + second) = Ring.read memory offset first ++ Ring.read memory (offset + first) second := by
  rw [Ring.read, List.range_add, List.map_append, List.map_map]
  congr 1
  apply List.map_congr_left
  intro i _
  rw [Function.comp_apply, Nat.add_assoc]

-- Of what is read in two parts each part is read.
theorem read_parts (memory : Nat → α) (offset : Nat) (first second : List α)
    (stored : Ring.read memory offset (first ++ second).length = first ++ second) :
    Ring.read memory offset first.length = first ∧ Ring.read memory (offset + first.length) second.length = second := by
  rw [List.length_append, read_append] at stored
  exact List.append_inj stored (read_length memory offset first.length)

theorem read_congr (memory other : Nat → α) (offset length : Nat)
    (same : ∀ place, offset ≤ place → place < offset + length → memory place = other place) :
    Ring.read memory offset length = Ring.read other offset length := by
  apply List.map_congr_left
  intro i inside
  rw [List.mem_range] at inside
  exact same (offset + i) (Nat.le_add_right _ _) (by omega)

-- A copy of the first bytes of a buffer agrees with it there.
theorem read_copy (memory behind : Nat → α) (size offset length : Nat) (inside : offset + length ≤ size) :
    Ring.read (Ring.write behind 0 (Ring.read memory 0 size)) offset length = Ring.read memory offset length := by
  have whole := Ring.read_write behind 0 (Ring.read memory 0 size)
  rw [read_length] at whole
  apply read_congr
  intro place _ before
  have at_place := List.map_inj_left.mp whole place (List.mem_range.mpr (by omega))
  rwa [Nat.zero_add] at at_place

theorem read_fill_apart (memory : Nat → α) (sections : List (Nat × List α)) (offset length : Nat)
    (apart : ∀ part ∈ sections, offset + length ≤ part.1 ∨ part.1 + part.2.length ≤ offset) :
    Ring.read (fill memory sections) offset length = Ring.read memory offset length := by
  induction sections generalizing memory with
  | nil => rfl
  | cons part sections ih =>
      rw [fill, List.foldl_cons, ← fill, ih _ (fun other member => apart other (List.mem_cons_of_mem _ member))]
      exact Ring.read_write_apart memory part.1 offset length part.2 (apart part List.mem_cons_self)

theorem read_fill (memory : Nat → α) (sections : List (Nat × List α)) (part : Nat × List α) (apart : sections.Pairwise Apart)
    (member : part ∈ sections) : Ring.read (fill memory sections) part.1 part.2.length = part.2 := by
  induction sections generalizing memory with
  | nil => cases member
  | cons first sections ih =>
      obtain ⟨here, later⟩ := List.pairwise_cons.mp apart
      rw [fill, List.foldl_cons, ← fill]
      cases member with
      | head =>
          rw [read_fill_apart _ sections part.1 part.2.length here]
          exact Ring.read_write memory part.1 part.2
      | tail _ member => exact ih _ later member

theorem array_length (encode : ε → List α) (width : Nat) (elements : List ε) (sized : ∀ element, (encode element).length = width) :
    (elements.flatMap encode).length = elements.length * width := by
  induction elements with
  | nil => rw [List.flatMap_nil, List.length_nil, List.length_nil, Nat.zero_mul]
  | cons first elements ih =>
      rw [List.flatMap_cons, List.length_append, ih, sized, List.length_cons, Nat.succ_mul, Nat.add_comm]

theorem read_array (memory : Nat → α) (offset width : Nat) (encode : ε → List α) (decode : List α → ε) (elements : List ε)
    (sized : ∀ element, (encode element).length = width) (inverse : ∀ element, decode (encode element) = element)
    (stored : Ring.read memory offset (elements.flatMap encode).length = elements.flatMap encode) :
    readArray memory offset width elements.length decode = elements := by
  induction elements generalizing offset with
  | nil => rfl
  | cons first elements ih =>
      rw [List.flatMap_cons, List.length_append, sized, read_append] at stored
      obtain ⟨head, tail⟩ := List.append_inj stored (by rw [read_length, sized])
      rw [readArray, List.length_cons, List.range_succ_eq_map, List.map_cons, Nat.zero_mul, Nat.add_zero, head, inverse, List.map_map]
      congr 1
      refine Eq.trans ?_ (ih (offset + width) tail)
      apply List.map_congr_left
      intro i _
      rw [Function.comp_apply, Nat.succ_mul, Nat.add_comm (i * width), Nat.add_assoc]

end Sections
