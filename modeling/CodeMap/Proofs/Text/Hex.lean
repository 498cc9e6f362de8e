import CodeMap.Text.Lines
import CodeMap.Text.Numbers
import Mathlib.Algebra.Group.Nat.Defs
import Mathlib.Data.List.Induction

/-! # Hexadecimal numbers

A digit is worth less than 16, and digits one after another spell a number to the base 16.
-/

namespace CodeMap.Text

variable {c : Char} {n : Nat}

/-- A digit is worth less than 16, and it is one of the visible ASCII characters. -/
theorem lt_of_hexDigit? (h : hexDigit? c = some n) :
    n < 16 ∧ 0x30 ≤ c.toNat ∧ c.toNat ≤ 0x66 := by
  have hle (d e : Char) : (d ≤ e) = (d.toNat ≤ e.toNat) := rfl
  simp only [hexDigit?, Bool.and_eq_true, decide_eq_true_eq, hle] at h
  change (if 48 ≤ c.toNat ∧ c.toNat ≤ 57 then some (c.toNat - 48)
    else if 97 ≤ c.toNat ∧ c.toNat ≤ 102 then some (c.toNat - 87)
    else if 65 ≤ c.toNat ∧ c.toNat ≤ 70 then some (c.toNat - 55) else none) = _ at h
  grind

theorem not_isBlank_of_isHexDigit (h : isHexDigit c) : ¬isBlank c := by
  obtain ⟨n, hn⟩ := Option.isSome_iff_exists.mp h
  have hrange := lt_of_hexDigit? hn
  simp only [isBlank, Bool.or_eq_true, Bool.and_eq_true, decide_eq_true_eq, beq_iff_eq]
  omega

theorem hexNumber_concat (digits : List Char) (c : Char) :
    hexNumber (digits ++ [c]) = hexNumber digits * 16 + (hexDigit? c).getD 0 := by
  rw [hexNumber, List.foldl_append]
  rfl

theorem hexNumber_lt (digits : List Char) : hexNumber digits < 16 ^ digits.length := by
  induction digits using List.reverseRecOn with
  | nil => decide
  | append_singleton digits c ih =>
    have hdigit : (hexDigit? c).getD 0 ≤ 15 := by
      cases h : hexDigit? c with
      | none => decide
      | some n => exact Nat.le_of_lt_succ (lt_of_hexDigit? h).1
    rw [hexNumber_concat, List.length_append, List.length_singleton, Nat.pow_succ]
    omega

/-! ## Columns -/

theorem hexDigit?_hexChar (upper : Bool) (hn : n < 16) : hexDigit? (hexChar upper n) = some n := by
  have hall : ∀ upper : Bool, ∀ n < 16, hexDigit? (hexChar upper n) = some n := by decide
  exact hall upper n hn

@[simp] theorem length_hexColumn (n : Nat) (capitals : List Bool) :
    (hexColumn n capitals).length = capitals.length := by
  induction capitals generalizing n with
  | nil => rfl
  | cons upper rest ih => rw [hexColumn, List.length_append, ih]; rfl

theorem isHexDigit_of_mem_hexColumn {capitals : List Bool} (h : c ∈ hexColumn n capitals) :
    isHexDigit c := by
  induction capitals generalizing n with
  | nil => cases h
  | cons upper rest ih =>
    rcases List.mem_append.mp h with h | h
    · exact ih h
    · rw [List.mem_singleton.mp h, isHexDigit, hexDigit?_hexChar upper (Nat.mod_lt _ (by decide))]
      rfl

/-- A column shows as much of a number as it has digits for, in whatever case they are. -/
theorem hexNumber_hexColumn (n : Nat) (capitals : List Bool) :
    hexNumber (hexColumn n capitals) = n % 16 ^ capitals.length := by
  induction capitals generalizing n with
  | nil => exact (Nat.mod_one n).symm
  | cons upper rest ih =>
    rw [hexColumn, hexNumber_concat, ih, hexDigit?_hexChar upper (Nat.mod_lt _ (by decide)),
      Option.getD_some, List.length_cons, Nat.pow_succ', Nat.mod_mul, Nat.mul_comm, Nat.add_comm]

end CodeMap.Text
