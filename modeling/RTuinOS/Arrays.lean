import Mathlib.Data.List.Perm.Subperm
import Mathlib.Logic.Function.Basic

/-!
The C arrays of `rtos.c` and the loops that move their elements. An array is a function from
indices with the size it is declared with; reading or writing past that size is undefined in C
and `none` here, so that a run that stays `some` never indexes out of bounds. The used part of an
array is the list of its first `n` elements (`aryList`), and every loop is given by what it does
to that list: the compacting loop erases one element, and a write at the count appends one.
-/
namespace RTuinOS

/-- `ary[i]` of a C array declared with `size` elements. -/
def readAry {α : Type} (size : Nat) (ary : Nat → α) (i : Nat) : Option α :=
  if i < size then some (ary i) else none

/-- `ary[i] = v` on a C array declared with `size` elements. -/
def writeAry {α : Type} (size : Nat) (ary : Nat → α) (i : Nat) (v : α) : Option (Nat → α) :=
  if i < size then some (Function.update ary i v) else none

/-- `++n` on a `uint8_t`. -/
def incU8 (n : Nat) : Nat := (n + 1) % 256

/-- `--n` on a `uint8_t`. -/
def decU8 (n : Nat) : Nat := (n + 255) % 256

/-- `for(u=first; u<first+count; ++u) ary[u] = ary[u+1];`, the loop that closes the gap left by
    an element taken out of `ary`. -/
def shiftDown {α : Type} (size : Nat) : (Nat → α) → (first count : Nat) → Option (Nat → α)
  | ary, _, 0 => some ary
  | ary, first, count+1 => do
    let next ← readAry size ary (first+1)
    let ary ← writeAry size ary first next
    shiftDown size ary (first+1) count

/-- The first `n` elements of an array. -/
def aryList {α : Type} (ary : Nat → α) (n : Nat) : List α := (List.range n).map ary

section
variable {α : Type} {size i n : Nat} {ary : Nat → α}

theorem readAry_of_lt (inside : i < size) : readAry size ary i = some (ary i) := by
  simp [readAry,inside]

theorem writeAry_of_lt (inside : i < size) (v : α) :
    writeAry size ary i v = some (Function.update ary i v) := by
  simp [writeAry,inside]

theorem incU8_of_lt (small : n < 255) : incU8 n = n + 1 := by
  unfold incU8; omega

theorem decU8_of_pos (pos : 0 < n) (small : n < 256) : decU8 n = n - 1 := by
  unfold decU8; omega

/-- Within the declared size, the compacting loop moves every element of its range down by one. -/
theorem shiftDown_eq (first count : Nat) (inside : first + count < size) (ary : Nat → α) :
    shiftDown size ary first count =
      some (fun j => if first ≤ j ∧ j < first + count then ary (j+1) else ary j) := by
  induction count generalizing ary first with
  | zero =>
    simp only [shiftDown,Option.some.injEq]
    funext j
    rw [if_neg (by omega)]
  | succ count ih =>
    simp only [shiftDown,readAry_of_lt (show first+1 < size by omega),
      writeAry_of_lt (show first < size by omega),Option.bind_eq_bind,Option.some_bind]
    rw [ih (first+1) (by omega)]
    congr 1
    funext j
    by_cases low : j = first
    · subst j; simp
    · by_cases high : first + 1 ≤ j ∧ j < first + 1 + count
      · have moved : j + 1 ≠ first := by omega
        simp [Function.update_noteq moved,high,show first ≤ j ∧ j < first + (count+1) by omega]
      · simp [Function.update_noteq low,high,show ¬ (first ≤ j ∧ j < first + (count+1)) by omega]

@[simp] theorem aryList_length (ary : Nat → α) (n : Nat) : (aryList ary n).length = n := by
  simp [aryList]

@[simp] theorem aryList_getElem (ary : Nat → α) (n j : Nat) (h : j < (aryList ary n).length) :
    (aryList ary n)[j] = ary j := by
  simp [aryList]

theorem aryList_succ (ary : Nat → α) (n : Nat) : aryList ary (n+1) = aryList ary n ++ [ary n] := by
  simp [aryList,List.range_succ]

/-- Arrays that agree below `n` have the same first `n` elements. -/
theorem aryList_congr {ary ary' : Nat → α} {n : Nat} (same : ∀ j < n, ary' j = ary j) :
    aryList ary' n = aryList ary n := by
  apply List.ext_getElem (by simp)
  intro j h _
  simp only [aryList_getElem]
  exact same j (by simpa using h)

/-- Writing at the count appends the element. -/
theorem aryList_update_count (ary : Nat → α) (n : Nat) (v : α) :
    aryList (Function.update ary n v) (n+1) = aryList ary n ++ [v] := by
  have before : aryList (Function.update ary n v) n = aryList ary n :=
    aryList_congr (fun j lt => Function.update_noteq (by omega) v ary)
  rw [aryList_succ,Function.update_same,before]

/-- Closing the gap at `first` erases the element there. -/
theorem aryList_shiftDown {first : Nat} (lt : first < n) (inside : n ≤ size) (ary : Nat → α) :
    ∃ ary', shiftDown size ary first (n - 1 - first) = some ary' ∧
      aryList ary' (n-1) = (aryList ary n).eraseIdx first := by
  refine ⟨_,shiftDown_eq first (n - 1 - first) (by omega) ary,?_⟩
  apply List.ext_getElem (by simp [List.length_eraseIdx,lt])
  intro j h _
  simp only [aryList_getElem,List.getElem_eraseIdx]
  simp only [aryList_length] at h
  by_cases before : j < first
  · simp [before,show ¬ (first ≤ j ∧ j < first + (n - 1 - first)) by omega]
  · simp [before,show first ≤ j ∧ j < first + (n - 1 - first) by omega]

/-- Closing the gap at the head and writing `v` behind the rest rolls the list by one. -/
theorem aryList_roll (pos : 0 < n) (inside : n ≤ size) (ary : Nat → α) (v : α) :
    ∃ ary', (shiftDown size ary 0 (n - 1)).bind (fun ary => writeAry size ary (n - 1) v) = some ary' ∧
      aryList ary' n = (aryList ary n).tail ++ [v] := by
  obtain ⟨moved,shifted,view⟩ := aryList_shiftDown pos inside ary
  rw [Nat.sub_zero] at shifted
  refine ⟨_,by rw [shifted,Option.some_bind,writeAry_of_lt (show n - 1 < size by omega)],?_⟩
  obtain ⟨m,rfl⟩ : ∃ m, n = m + 1 := ⟨n - 1,by omega⟩
  rw [Nat.add_sub_cancel] at view ⊢
  rw [aryList_update_count,view,List.eraseIdx_zero]

end

end RTuinOS
