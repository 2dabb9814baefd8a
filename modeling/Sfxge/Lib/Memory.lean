import Sfxge.Lib.Bytes

/-!
# Lib.Memory — memory as a device sees it

A memory gives each address a byte.  `read` and `write` act on a range of addresses; what is written to one
range is read back there, and nowhere else.  Nothing here mentions the driver.
-/

namespace Lib

abbrev Memory := ℕ → UInt8

namespace Memory

/-- The `n` bytes from `addr` on. -/
def read (m : Memory) (addr n : ℕ) : Bytes := (List.range n).map fun k => m (addr + k)

/-- The memory with `bs` from `addr` on. -/
def write (m : Memory) (addr : ℕ) (bs : Bytes) : Memory := fun x =>
  if addr ≤ x ∧ x < addr + bs.length then bs.getD (x - addr) 0 else m x

variable {m m' : Memory} {addr n k : ℕ} {bs : Bytes}

@[simp] theorem length_read : (m.read addr n).length = n := by simp [read]

@[simp] theorem getElem_read {i : ℕ} (hi : i < (m.read addr n).length) : (m.read addr n)[i] = m (addr + i) := by
  simp [read]

@[simp] theorem read_zero : m.read addr 0 = [] := rfl

theorem read_congr (h : ∀ x, addr ≤ x → x < addr + n → m' x = m x) : m'.read addr n = m.read addr n := by
  refine List.map_congr_left fun k hk => ?_
  rw [List.mem_range] at hk
  exact h (addr + k) (by omega) (by omega)

theorem read_add : m.read addr (n + k) = m.read addr n ++ m.read (addr + n) k := by
  rw [read, List.range_add, List.map_append, List.map_map]
  refine congrArg (_ ++ ·) (List.map_congr_left fun j _ => ?_)
  exact congrArg m (Nat.add_assoc addr n j).symm

theorem write_of_not_mem {x : ℕ} (h : ¬ (addr ≤ x ∧ x < addr + bs.length)) : m.write addr bs x = m x := if_neg h

/-- A range that the write does not touch keeps its bytes. -/
theorem read_write_of_apart {a : ℕ} (h : ∀ x, a ≤ x → x < a + n → ¬ (addr ≤ x ∧ x < addr + bs.length)) :
    (m.write addr bs).read a n = m.read a n :=
  read_congr fun x h1 h2 => write_of_not_mem (h x h1 h2)

/-- What is written is read back. -/
theorem read_write_self : (m.write addr bs).read addr bs.length = bs := by
  refine List.ext_getElem length_read fun i hi hi' => ?_
  rw [getElem_read, write, if_pos ⟨by omega, by omega⟩, Nat.add_sub_cancel_left, List.getD_eq_getElem _ _ hi']

/-- The bytes read are those of a list at the same places. -/
theorem read_eq_of_getElem (hlen : bs.length = n) (h : ∀ i (hi : i < bs.length), m (addr + i) = bs[i]) :
    m.read addr n = bs := by
  refine List.ext_getElem (by rw [length_read, hlen]) fun i hi hi' => ?_
  rw [getElem_read, h i hi']

end Memory

end Lib
