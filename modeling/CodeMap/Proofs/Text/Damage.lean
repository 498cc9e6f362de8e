import CodeMap.Proofs.Text.Pieces
import CodeMap.Proofs.Text.Utf8
import Mathlib.Algebra.Group.Nat.Defs
import Mathlib.Data.List.Induction

/-! # Damaged text

An ASCII byte stands for itself wherever it stands: if a character has been begun by then, it is given
up, and the byte is read afresh. No other byte gives an ASCII character or has a part in one. So bytes
that are no UTF-8 do not reach over a line end, and it is the same to cut a text into lines and to
decode each line as to decode the text and to cut it then (`cutLines_decodeLossy`).
-/

namespace CodeMap.Text

/-! ## Characters begun -/

namespace Begun

/-- The least number that can become of a character begun. -/
def least (p : Begun) : Nat := (p.value * 64 + (p.low.toNat - 0x80)) * 64 ^ (p.lacking - 1)

/-- All numbers that can become of a character begun are below this one. -/
def bound (p : Begun) : Nat := (p.value * 64 + (p.high.toNat - 0x80) + 1) * 64 ^ (p.lacking - 1)

/-- No ASCII byte goes on with the character, and it becomes a character that is not ASCII. -/
structure IsProper (p : Begun) : Prop where
  low : 0x80 ≤ p.low.toNat
  least : 0x80 ≤ p.least
  valid : p.bound ≤ 0xD800 ∨ 0xDFFF < p.least ∧ p.bound ≤ 0x110000

theorem least_middle (value k : Nat) : least ⟨value, k + 1, 0x80, 0xBF⟩ = value * 64 ^ (k + 1) := by
  have hlow : (0x80 : UInt8).toNat - 0x80 = 0 := by decide
  rw [least, hlow, Nat.add_zero, Nat.add_sub_cancel, Nat.mul_assoc, ← Nat.pow_succ']

theorem bound_middle (value k : Nat) :
    bound ⟨value, k + 1, 0x80, 0xBF⟩ = (value + 1) * 64 ^ (k + 1) := by
  have hhigh : (0xBF : UInt8).toNat - 0x80 + 1 = 64 := by decide
  rw [bound, Nat.add_assoc, hhigh, Nat.add_sub_cancel, ← Nat.succ_mul, Nat.mul_assoc,
    ← Nat.pow_succ']

theorem toNat_ofNat_of_valid {n : Nat} (h : n < 0xD800 ∨ 0xDFFF < n ∧ n < 0x110000) :
    (Char.ofNat n).toNat = n := by
  rw [Char.ofNat, dif_pos h]
  rfl

namespace IsProper

variable {p : Begun} {b : UInt8}

/-- The last byte completes a character that is not ASCII. -/
theorem le_toNat_last (hp : p.IsProper) (hlow : p.low ≤ b) (hhigh : b ≤ p.high)
    (hlast : p.lacking ≤ 1) : 0x80 ≤ (Char.ofNat (p.value * 64 + (b.toNat - 0x80))).toNat := by
  obtain ⟨-, hleast, hvalid⟩ := hp
  have hone : 64 ^ (p.lacking - 1) = 1 := by rw [Nat.sub_eq_zero_of_le hlast, Nat.pow_zero]
  rw [Begun.least, hone, Nat.mul_one] at hleast hvalid
  rw [bound, hone, Nat.mul_one] at hvalid
  rw [UInt8.le_iff_toNat_le] at hlow hhigh
  rw [toNat_ofNat_of_valid (by omega)]
  omega

/-- A byte before the last one narrows down what becomes of the character. -/
theorem next (hp : p.IsProper) (hlow : p.low ≤ b) (hhigh : b ≤ p.high) (hmore : ¬p.lacking ≤ 1) :
    IsProper ⟨p.value * 64 + (b.toNat - 0x80), p.lacking - 1, 0x80, 0xBF⟩ := by
  obtain ⟨value, lacking, low, high⟩ := p
  obtain ⟨k, rfl⟩ : ∃ k, lacking = k + 2 :=
    ⟨lacking - 2, (Nat.sub_add_cancel (Nat.lt_of_not_le hmore)).symm⟩
  rw [UInt8.le_iff_toNat_le] at hlow hhigh
  simp only at hlow hhigh
  obtain ⟨-, hleast, hvalid⟩ := hp
  let next : Begun := ⟨value * 64 + (b.toNat - 0x80), k + 1, 0x80, 0xBF⟩
  have hbelow : (value * 64 + (low.toNat - 0x80)) * 64 ^ (k + 1) ≤ next.least := by
    rw [least_middle]
    exact Nat.mul_le_mul_right _ (by omega)
  have habove : next.bound ≤ (value * 64 + (high.toNat - 0x80) + 1) * 64 ^ (k + 1) := by
    rw [bound_middle]
    exact Nat.mul_le_mul_right _ (by omega)
  refine ⟨Nat.le_refl _, Nat.le_trans hleast hbelow, ?_⟩
  exact hvalid.imp (Nat.le_trans habove) (.imp (Nat.lt_of_lt_of_le · hbelow) (Nat.le_trans habove))

end IsProper

/-! ### Lead bytes -/

variable {n : Nat}

theorem isProper_two (h : 0xC2 ≤ n) (h' : n < 0xE0) : IsProper ⟨n - 0xC0, 1, 0x80, 0xBF⟩ := by
  refine ⟨by simp, ?_, .inl ?_⟩ <;> simp [least, bound] <;> omega

theorem isProper_three (h : 0xE0 ≤ n) (h' : n < 0xF0) :
    IsProper ⟨n - 0xE0, 2, if n = 0xE0 then 0xA0 else 0x80, if n = 0xED then 0x9F else 0xBF⟩ := by
  refine ⟨?_, ?_, ?_⟩
  · show 0x80 ≤ UInt8.toNat (if _ then _ else _)
    split <;> decide
  · simp only [least]
    split <;> simp <;> omega
  · simp only [least, bound]
    split <;> split <;> simp <;> omega

theorem isProper_four (h : 0xF0 ≤ n) (h' : n < 0xF5) :
    IsProper ⟨n - 0xF0, 3, if n = 0xF0 then 0x90 else 0x80, if n = 0xF4 then 0x8F else 0xBF⟩ := by
  refine ⟨?_, ?_, ?_⟩
  · show 0x80 ≤ UInt8.toNat (if _ then _ else _)
    split <;> decide
  · simp only [least]
    split <;> simp <;> omega
  · simp only [least, bound]
    split <;> split <;> simp <;> omega

end Begun

/-! ## One byte more -/

namespace Decoder

variable {d : Decoder} {emitted : List (Option Char)} {b : UInt8} {bytes : Bytes}

/-- What a byte that is not ASCII does. It gives no ASCII character; and either it gives something or
it goes on with a character. -/
structure GoesOn (d next : Decoder) : Prop where
  emitted : ∃ units, next.emitted = units ++ d.emitted ∧
    (∀ c, some c ∈ units → 0x80 ≤ c.toNat) ∧ (next.begun = none → units ≠ [])
  begun : ∀ p ∈ next.begun, p.IsProper

theorem goesOn_mark (begun : Option Begun) : GoesOn ⟨emitted, begun⟩ ⟨none :: emitted, none⟩ where
  emitted := ⟨[none], rfl, by simp, fun _ => List.cons_ne_nil _ _⟩
  begun := nofun

theorem goesOn_char {c : Char} (hc : 0x80 ≤ c.toNat) (begun : Option Begun) :
    GoesOn ⟨emitted, begun⟩ ⟨some c :: emitted, none⟩ where
  emitted := by
    refine ⟨[some c], rfl, fun other hother => ?_, fun _ => List.cons_ne_nil _ _⟩
    obtain rfl := Option.some.inj (List.mem_singleton.mp hother)
    exact hc
  begun := nofun

theorem goesOn_begun {p : Begun} (hp : p.IsProper) (begun : Option Begun) :
    GoesOn ⟨emitted, begun⟩ ⟨emitted, some p⟩ where
  emitted := ⟨[], rfl, nofun, nofun⟩
  begun := by
    rintro _ ⟨⟩
    exact hp

theorem goesOn_lead (emitted : List (Option Char)) (hb : 0x80 ≤ b.toNat) (begun : Option Begun) :
    GoesOn ⟨emitted, begun⟩ (lead emitted b) := by
  -- A lead byte is read as the decoder reads it between two characters.
  show GoesOn _ (step ⟨emitted, none⟩ b)
  rw [step_start rfl, if_neg (Nat.not_lt.mpr hb)]
  split
  · exact goesOn_mark begun
  · next htwo =>
    split
    · exact goesOn_begun (Begun.isProper_two (Nat.le_of_not_lt htwo) (by assumption)) begun
    · next hthree =>
      split
      · exact goesOn_begun (Begun.isProper_three (Nat.le_of_not_lt hthree) (by assumption)) begun
      · next hfour =>
        split
        · exact goesOn_begun (Begun.isProper_four (Nat.le_of_not_lt hfour) (by assumption)) begun
        · exact goesOn_mark begun

theorem goesOn_step (hd : ∀ p ∈ d.begun, p.IsProper) (hb : 0x80 ≤ b.toNat) :
    GoesOn d (d.step b) := by
  obtain ⟨emitted, begun⟩ := d
  cases begun with
  | none => exact goesOn_lead emitted hb none
  | some p =>
    have hp : p.IsProper := hd p rfl
    rw [step]
    simp only [Bool.and_eq_true, decide_eq_true_eq]
    split
    · next hrange =>
      split
      · next hlast => exact goesOn_char (hp.le_toNat_last hrange.1 hrange.2 hlast) _
      · next hmore => exact goesOn_begun (hp.next hrange.1 hrange.2 hmore) _
    · -- The byte begins something else, and what was begun has become a mark.
      obtain ⟨⟨units, hunits, hascii, hne⟩, hbegun⟩ := goesOn_lead (none :: emitted) hb none
      have hgiven : units ++ [none] ≠ [] :=
        List.append_ne_nil_of_right_ne_nil units (List.cons_ne_nil none [])
      refine ⟨⟨units ++ [none], ?_, ?_, fun _ => hgiven⟩, hbegun⟩
      · rw [hunits, List.append_assoc, List.singleton_append]
      · simpa using hascii

/-- An ASCII byte stands for itself. What was begun has become a mark, as it would at the end. -/
theorem step_ascii (hd : ∀ p ∈ d.begun, p.IsProper) (hb : b.toNat < 0x80) :
    d.step b = ⟨some (Char.ofNat b.toNat) :: d.finish.reverse, none⟩ := by
  obtain ⟨emitted, begun⟩ := d
  have hlead (emitted : List (Option Char)) :
      lead emitted b = ⟨some (Char.ofNat b.toNat) :: emitted, none⟩ :=
    if_pos (UInt8.lt_iff_toNat_lt.mpr hb)
  rw [finish, List.reverse_reverse]
  cases begun with
  | none => exact hlead emitted
  | some p =>
    have hout : ¬(p.low ≤ b && b ≤ p.high) := by
      have hlow := (hd p rfl).low
      simp only [Bool.and_eq_true, decide_eq_true_eq, UInt8.le_iff_toNat_le]
      omega
    rw [step]
    simp only
    rw [if_neg hout, hlead]

/-! ## All bytes so far -/

theorem some_mem_finish {c : Char} : some c ∈ d.finish ↔ some c ∈ d.emitted := by
  rw [finish, List.mem_reverse]
  cases d.begun with
  | none => rfl
  | some p => simp

/-- What is true of a decoder that has read the bytes: an ASCII character has come from its byte, and
the last unit from the last byte. -/
structure HasRead (bytes : Bytes) (d : Decoder) : Prop where
  begun : ∀ p ∈ d.begun, p.IsProper
  mem : ∀ c, some c ∈ d.emitted → c.toNat < 0x80 → UInt8.ofNat c.toNat ∈ bytes
  last : d.begun = none → ∀ c, d.emitted.head? = some (some c) → c.toNat < 0x80 →
    bytes.getLast? = some (UInt8.ofNat c.toNat)
  eq_nil : d.begun = none → d.emitted = [] → bytes = []

namespace HasRead

theorem start : HasRead [] start := ⟨nofun, nofun, nofun, fun _ _ => rfl⟩

theorem step (h : HasRead bytes d) (b : UInt8) : HasRead (bytes ++ [b]) (d.step b) := by
  by_cases hb : b.toNat < 0x80
  · have hself : UInt8.ofNat (Char.ofNat b.toNat).toNat = b := by
      rw [Begun.toNat_ofNat_of_valid (.inl (Nat.lt_trans hb (by decide))), UInt8.ofNat_toNat]
    rw [step_ascii h.begun hb]
    refine ⟨nofun, fun c hc hascii => ?_, fun _ c hc _ => ?_, nofun⟩
    · rcases List.mem_cons.mp hc with hc | hc
      · obtain rfl := Option.some.inj hc
        exact List.mem_append_right _ (List.mem_singleton.mpr hself)
      · have hemitted := some_mem_finish.mp (List.mem_reverse.mp hc)
        exact List.mem_append_left _ (h.mem c hemitted hascii)
    · obtain rfl := Option.some.inj (Option.some.inj hc)
      rw [hself, List.getLast?_concat]
  · obtain ⟨⟨units, hunits, hascii, hne⟩, hbegun⟩ := goesOn_step h.begun (Nat.le_of_not_lt hb)
    refine ⟨hbegun, fun c hc hlt => ?_, fun hnone c hc hlt => ?_, fun hnone hnil => ?_⟩
    · rw [hunits] at hc
      rcases List.mem_append.mp hc with hc | hc
      · exact absurd hlt (Nat.not_lt.mpr (hascii c hc))
      · exact List.mem_append_left _ (h.mem c hc hlt)
    · obtain ⟨unit, more, rfl⟩ := List.exists_cons_of_ne_nil (hne hnone)
      rw [hunits] at hc
      obtain rfl := Option.some.inj hc
      exact absurd hlt (Nat.not_lt.mpr (hascii c List.mem_cons_self))
    · rw [hunits] at hnil
      exact absurd (List.append_eq_nil_iff.mp hnil).1 (hne hnone)

theorem foldl_step (bytes : Bytes) : HasRead bytes (bytes.foldl Decoder.step Decoder.start) := by
  induction bytes using List.reverseRecOn with
  | nil => exact start
  | append_singleton bytes b ih =>
    rw [List.foldl_append]
    exact ih.step b

end HasRead

/-! ## What has been emitted -/

theorem lead_append (emitted base : List (Option Char)) (b : UInt8) :
    lead (emitted ++ base) b = ⟨(lead emitted b).emitted ++ base, (lead emitted b).begun⟩ := by
  unfold lead
  repeat' split
  all_goals rfl

/-- What has been emitted has no effect on what follows. -/
theorem step_append (base : List (Option Char)) (d : Decoder) (b : UInt8) :
    step ⟨d.emitted ++ base, d.begun⟩ b = ⟨(d.step b).emitted ++ base, (d.step b).begun⟩ := by
  obtain ⟨emitted, begun⟩ := d
  cases begun with
  | none => exact lead_append emitted base b
  | some p =>
    simp only [step]
    split
    · split <;> rfl
    · exact lead_append (none :: emitted) base b

theorem foldl_step_append (base : List (Option Char)) (d : Decoder) (bytes : Bytes) :
    bytes.foldl step ⟨d.emitted ++ base, d.begun⟩ =
      ⟨(bytes.foldl step d).emitted ++ base, (bytes.foldl step d).begun⟩ := by
  induction bytes generalizing d with
  | nil => rfl
  | cons b rest ih => rw [List.foldl_cons, step_append, ih, List.foldl_cons]

theorem finish_append (base : List (Option Char)) (d : Decoder) :
    finish ⟨d.emitted ++ base, d.begun⟩ = base.reverse ++ d.finish := by
  rw [finish, finish]
  cases d.begun with
  | none => rw [List.reverse_append]
  | some p => rw [← List.cons_append, List.reverse_append]

end Decoder

/-! ## Texts -/

variable {bytes : Bytes} {b : UInt8} {c : Char}

theorem decodeUnits_append_cons (xs ys : Bytes) (hb : b.toNat < 0x80) :
    decodeUnits (xs ++ b :: ys) =
      decodeUnits xs ++ some (Char.ofNat b.toNat) :: decodeUnits ys := by
  have hstep := Decoder.step_ascii (Decoder.HasRead.foldl_step xs).begun hb
  have hrest := Decoder.foldl_step_append
    (some (Char.ofNat b.toNat) :: (decodeUnits xs).reverse) Decoder.start ys
  rw [decodeUnits, List.foldl_append, List.foldl_cons, hstep]
  refine (congrArg Decoder.finish hrest).trans ?_
  rw [Decoder.finish_append, List.reverse_cons, List.reverse_reverse, List.append_assoc]
  rfl

/-- What stands before an ASCII byte and what stands behind it are decoded apart. -/
theorem decodeLossy_append_cons (xs ys : Bytes) (hb : b.toNat < 0x80) :
    decodeLossy (xs ++ b :: ys) =
      decodeLossy xs ++ Char.ofNat b.toNat :: decodeLossy ys := by
  rw [decodeLossy, decodeUnits_append_cons xs ys hb, List.map_append, List.map_cons]
  rfl

/-- An ASCII character is no replacement of anything. -/
theorem eq_some_of_getD_eq {unit : Option Char} (h : unit.getD '\uFFFD' = c) (hc : c.toNat < 0x80) :
    unit = some c := by
  cases unit with
  | none =>
    subst h
    exact absurd hc (by decide)
  | some other => exact congrArg some h

theorem mem_of_mem_decodeLossy (h : c ∈ decodeLossy bytes) (hc : c.toNat < 0x80) :
    UInt8.ofNat c.toNat ∈ bytes := by
  obtain ⟨unit, hunit, heq⟩ := List.mem_map.mp h
  rw [eq_some_of_getD_eq heq hc] at hunit
  exact (Decoder.HasRead.foldl_step bytes).mem c (Decoder.some_mem_finish.mp hunit) hc

theorem getLast?_of_getLast?_decodeLossy (h : (decodeLossy bytes).getLast? = some c)
    (hc : c.toNat < 0x80) : bytes.getLast? = some (UInt8.ofNat c.toNat) := by
  rw [decodeLossy, List.getLast?_map] at h
  obtain ⟨unit, hunit, heq⟩ := Option.map_eq_some_iff.mp h
  rw [eq_some_of_getD_eq heq hc, decodeUnits, Decoder.finish, List.getLast?_reverse] at hunit
  have hread := Decoder.HasRead.foldl_step bytes
  -- A character that has been begun is a mark at the end, so none has.
  split at hunit
  · next hnone => exact hread.last hnone c hunit hc
  · cases hunit

theorem decodeLossy_eq_nil_iff : decodeLossy bytes = [] ↔ bytes = [] := by
  constructor
  · intro h
    rw [decodeLossy, List.map_eq_nil_iff, decodeUnits, Decoder.finish, List.reverse_eq_nil_iff] at h
    split at h
    · next hnone => exact (Decoder.HasRead.foldl_step bytes).eq_nil hnone h
    · cases h
  · rintro rfl
    rfl

/-! ## Lines -/

theorem dropOne_decodeLossy (piece : Bytes) :
    dropOne '\r' (decodeLossy piece) = decodeLossy (dropOne 0x0D piece) := by
  by_cases hlast : piece.getLast? = some 0x0D
  · obtain ⟨start, rfl⟩ := List.getLast?_eq_some_iff.mp hlast
    have hdecode : decodeLossy (start ++ [0x0D]) = decodeLossy start ++ ['\r'] :=
      decodeLossy_append_cons start [] (by decide)
    rw [hdecode, dropOne_concat, dropOne_concat]
  · rw [dropOne_of_getLast?_ne hlast, dropOne_of_getLast?_ne]
    exact fun h => hlast (getLast?_of_getLast?_decodeLossy h (by decide))

/-- A text is decoded line by line. -/
theorem cutLines_decodeLossy (bytes : Bytes) :
    cutLines '\n' '\r' (decodeLossy bytes) = (cutLines 0x0A 0x0D bytes).map decodeLossy := by
  have hline {piece : Bytes} (h : 0x0A ∉ piece) : '\n' ∉ decodeLossy piece :=
    fun hmem => h (mem_of_mem_decodeLossy hmem (by decide))
  induction bytes using line_induction (0x0A : UInt8) with
  | last text h =>
    rw [cutLines_of_notMem (hline h), cutLines_of_notMem h]
    simp only [decodeLossy_eq_nil_iff]
    split <;> rfl
  | line piece rest h ih =>
    have hdecode : decodeLossy (piece ++ 0x0A :: rest) =
        decodeLossy piece ++ '\n' :: decodeLossy rest :=
      decodeLossy_append_cons piece rest (by decide)
    rw [hdecode, cutLines_append_cons (hline h), cutLines_append_cons h, List.map_cons, ih,
      dropOne_decodeLossy]

end CodeMap.Text
