import Mathlib.Data.List.Basic
import Mathlib.Data.List.Infix
import QvPlugin.Qt.Json

/-! `QByteArray`, as far as a line of text is cut out of one and cut into words. -/

set_option autoImplicit false
set_option relaxedAutoImplicit false

namespace QvPlugin.Qt

abbrev QByteArray := List UInt8

/-- `QString::toUtf8`, and the bytes of a text in the source. -/
def toUtf8 (s : QString) : QByteArray := s.toList.flatMap String.utf8EncodeChar

namespace QByteArray

def find (text : QByteArray) : QByteArray → Option ℕ
  | [] => if text = [] then some 0 else none
  | b :: data => if text <+: b :: data then some 0 else (find text data).map (· + 1)

def indexOf (data text : QByteArray) : ℤ :=
  match find text data with
  | some pos => pos
  | none => -1

/-- `left`: of a negative length, nothing. -/
def left (data : QByteArray) (len : ℤ) : QByteArray := data.take len.toNat

/-- `remove(0, len)`. -/
def removeFront (data : QByteArray) (len : ℤ) : QByteArray := data.drop len.toNat

/-- `split`: one piece more than there are separators. -/
def split (data : QByteArray) (sep : UInt8) : List QByteArray := data.splitOn sep

def value (pieces : List QByteArray) (i : ℕ) : QByteArray := pieces.getD i []

theorem find_eq_some_iff {text data : QByteArray} {pos : ℕ} :
    find text data = some pos ↔
      text <+: data.drop pos ∧ pos ≤ data.length ∧ ∀ i < pos, ¬ text <+: data.drop i := by
  induction data generalizing pos with
  | nil =>
      rw [find]
      constructor
      · intro found
        have empty : text = [] := by
          by_contra nonempty
          rw [if_neg nonempty] at found
          exact absurd found (by simp)
        rw [if_pos empty, Option.some.injEq] at found
        subst found
        exact ⟨by simp [empty], le_refl _, fun i small => absurd small (Nat.not_lt_zero i)⟩
      · rintro ⟨here, bound, -⟩
        have zero : pos = 0 := by simpa using bound
        have empty : text = [] := by simpa using here
        rw [if_pos empty, zero]
  | cons b data ih =>
      rw [find]
      by_cases first : text <+: b :: data
      · rw [if_pos first, Option.some.injEq]
        constructor
        · rintro rfl
          exact ⟨first, Nat.zero_le _, fun i small => absurd small (Nat.not_lt_zero i)⟩
        · rintro ⟨-, -, none⟩
          by_contra later
          exact none 0 (by omega) first
      · rw [if_neg first, Option.map_eq_some_iff]
        constructor
        · rintro ⟨n, found, rfl⟩
          obtain ⟨here, bound, none⟩ := ih.mp found
          refine ⟨here, by simpa using bound, fun i small => ?_⟩
          cases i with
          | zero => exact first
          | succ i => exact none i (by omega)
        · rintro ⟨here, bound, none⟩
          cases pos with
          | zero => exact absurd here first
          | succ n =>
              refine ⟨n, ih.mpr ⟨here, by simpa using bound, fun i small => ?_⟩, rfl⟩
              exact none (i + 1) (by omega)

theorem find_eq_none_iff {text data : QByteArray} : find text data = none ↔ ¬ text <:+: data := by
  induction data with
  | nil =>
      rw [find]
      by_cases empty : text = []
      · simp [empty]
      · simp [empty]
  | cons b data ih =>
      rw [find, List.infix_cons_iff, not_or]
      by_cases first : text <+: b :: data
      · simp [first]
      · rw [if_neg first, Option.map_eq_none_iff, ih]
        simp [first]

end QByteArray

end QvPlugin.Qt
