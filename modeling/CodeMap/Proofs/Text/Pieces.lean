import CodeMap.Text.Lines
import Mathlib.Data.List.TakeWhile

/-! # Pieces of a text

A text is cut behind its longest beginning in a class of characters, or in front of its longest end
in one. If a text is made of a span in the class and something that does not go on in it, the cut
lies between the two.

The words of a text are what its blanks leave of it. A blank separates the words in front of it from
those behind it, and how many blanks there are between two words does not matter. The lines of a text
are cut off one by one: a first line up to the first line feed, and the lines of what follows.
-/

namespace CodeMap.Text

section Spans

variable {α : Type} {p : α → Bool} {xs ys : List α}

/-! ## Beginnings -/

theorem takeWhile_append_eq (hx : ∀ x ∈ xs, p x) (hy : ∀ y ∈ ys.head?, ¬p y) :
    (xs ++ ys).takeWhile p = xs := by
  have hnil : ys.takeWhile p = [] := by
    cases ys with
    | nil => rfl
    | cons y rest => exact List.takeWhile_cons_of_neg (hy y rfl)
  rw [List.takeWhile_append_of_pos hx, hnil, List.append_nil]

theorem dropWhile_append_eq (hx : ∀ x ∈ xs, p x) (hy : ∀ y ∈ ys.head?, ¬p y) :
    (xs ++ ys).dropWhile p = ys := by
  rw [List.dropWhile_append_of_pos hx]
  cases ys with
  | nil => rfl
  | cons y rest => exact List.dropWhile_cons_of_neg (hy y rfl)

theorem takeWhile_ne_nil (hx : xs ≠ []) (hp : ∀ x ∈ xs.head?, p x) : xs.takeWhile p ≠ [] := by
  cases xs with
  | nil => exact absurd rfl hx
  | cons x rest =>
    rw [List.takeWhile_cons_of_pos (hp x rfl)]
    exact List.cons_ne_nil _ _

/-- What lies behind the longest beginning in a class does not go on in the class. -/
theorem not_of_mem_head?_dropWhile {y : α} (h : y ∈ (xs.dropWhile p).head?) : ¬p y := by
  have hnot := List.head?_dropWhile_not p xs
  rw [Option.mem_def.mp h] at hnot
  exact Bool.eq_false_iff.mp hnot

theorem le_length_takeWhile {n : Nat} :
    n ≤ (xs.takeWhile p).length ↔ n ≤ xs.length ∧ ∀ x ∈ xs.take n, p x := by
  induction xs generalizing n with
  | nil => simp
  | cons x rest ih =>
    cases n with
    | zero => simp
    | succ n => by_cases hx : p x <;> simp [hx, ih]

/-! ## Ends -/

theorem dropTrailing_append {p : Char → Bool} {text ends : List Char} (hends : ∀ x ∈ ends, p x)
    (hlast : ∀ x ∈ text.getLast?, ¬p x) : dropTrailing p (text ++ ends) = text := by
  rw [dropTrailing, List.reverse_append, dropWhile_append_eq, List.reverse_reverse]
  · exact fun x hx => hends x (List.mem_reverse.mp hx)
  · exact fun x hx => hlast x (List.head?_reverse ▸ hx)

/-- If an end is dropped, so is what stands in front of it in the same class. -/
theorem dropTrailing_append_of_pos {p : Char → Bool} {ends : List Char} (text : List Char)
    (hends : ∀ x ∈ ends, p x) : dropTrailing p (text ++ ends) = dropTrailing p text := by
  rw [dropTrailing, List.reverse_append,
    List.dropWhile_append_of_pos fun x hx => hends x (List.mem_reverse.mp hx)]
  rfl

theorem dropTrailing_prefix (p : Char → Bool) (text : List Char) : dropTrailing p text <+: text := by
  rw [← List.reverse_suffix, dropTrailing, List.reverse_reverse]
  exact List.dropWhile_suffix p

theorem not_of_mem_getLast?_dropTrailing {p : Char → Bool} {text : List Char} {x : Char}
    (h : x ∈ (dropTrailing p text).getLast?) : ¬p x := by
  rw [dropTrailing, List.getLast?_reverse] at h
  exact not_of_mem_head?_dropWhile h

/-- What is dropped at the end is in the class. -/
theorem exists_eq_dropTrailing_append (p : Char → Bool) (text : List Char) :
    ∃ ends, (∀ x ∈ ends, p x) ∧ text = dropTrailing p text ++ ends := by
  refine ⟨(text.reverse.takeWhile p).reverse, fun x hx => ?_, ?_⟩
  · exact List.mem_takeWhile_imp (List.mem_reverse.mp hx)
  · rw [dropTrailing, ← List.reverse_append, List.takeWhile_append_dropWhile, List.reverse_reverse]

/-- A text is cut at its last mark in one way only. -/
theorem append_cons_inj {mark : Char} {xs ys us vs : List Char} (hys : mark ∉ ys)
    (hvs : mark ∉ vs) : xs ++ mark :: ys = us ++ mark :: vs ↔ xs = us ∧ ys = vs := by
  have cut {start rest : List Char} (h : mark ∉ rest) :
      dropTrailing (· != mark) (start ++ mark :: rest) = start ++ [mark] := by
    rw [← List.singleton_append, ← List.append_assoc]
    apply dropTrailing_append
    · exact fun x hx => bne_iff_ne.mpr fun hmark => h (hmark ▸ hx)
    · simp
  constructor
  · intro h
    have hstart : xs ++ [mark] = us ++ [mark] := by rw [← cut hys, h, cut hvs]
    obtain rfl := List.append_cancel_right hstart
    exact ⟨rfl, List.tail_eq_of_cons_eq (List.append_cancel_left h)⟩
  · rintro ⟨rfl, rfl⟩
    rfl

/-! ## Both ends -/

theorem trim_eq_nil {text : List Char} (h : ∀ x ∈ text, isBlank x) : trim text = [] := by
  rw [trim, List.dropWhile_eq_nil_iff.mpr h, dropTrailing_nil]

/-- Blanks around a text that has none at its ends are trimmed off. -/
theorem trim_append {before text after : List Char} (hbefore : ∀ x ∈ before, isBlank x)
    (hafter : ∀ x ∈ after, isBlank x) (hne : text ≠ []) (hfirst : ∀ x ∈ text.head?, ¬isBlank x)
    (hlast : ∀ x ∈ text.getLast?, ¬isBlank x) : trim (before ++ text ++ after) = text := by
  have hstart : ∀ x ∈ (text ++ after).head?, ¬isBlank x := by
    rwa [List.head?_append, List.head?_eq_some_head hne, Option.some_or,
      ← List.head?_eq_some_head hne]
  rw [trim, List.append_assoc, dropWhile_append_eq hbefore hstart, dropTrailing_append hafter hlast]

/-- Only blanks are trimmed off. -/
theorem exists_eq_append_trim_append (text : List Char) :
    ∃ before after, (∀ x ∈ before, isBlank x) ∧ (∀ x ∈ after, isBlank x) ∧
      text = before ++ trim text ++ after := by
  obtain ⟨after, hafter, hsplit⟩ := exists_eq_dropTrailing_append isBlank (text.dropWhile isBlank)
  refine ⟨text.takeWhile isBlank, after, fun _ => List.mem_takeWhile_imp, hafter, ?_⟩
  rw [trim, List.append_assoc, ← hsplit, List.takeWhile_append_dropWhile]

theorem not_of_mem_head?_trim {text : List Char} {x : Char} (h : x ∈ (trim text).head?) :
    ¬isBlank x := by
  obtain ⟨ends, hsplit⟩ := dropTrailing_prefix isBlank (text.dropWhile isBlank)
  refine not_of_mem_head?_dropWhile (?_ : x ∈ (text.dropWhile isBlank).head?)
  rw [← hsplit, List.head?_append]
  exact Option.or_eq_some_iff.mpr (.inl h)

theorem not_of_mem_getLast?_trim {text : List Char} {x : Char} (h : x ∈ (trim text).getLast?) :
    ¬isBlank x := not_of_mem_getLast?_dropTrailing h

end Spans

/-! ## Words -/

section Words

/-- The words of a text, in order. -/
def words (text : List Char) : List (List Char) := (text.splitOnP isBlank).filter (· != [])

variable {x : Char} {xs ys gap word : List Char}

theorem words_append_cons (xs ys : List Char) (h : isBlank x) :
    words (xs ++ x :: ys) = words xs ++ words ys := by
  rw [words, List.splitOnP_append_cons xs ys h, List.filter_append]
  rfl

theorem words_blank_cons (h : isBlank x) : words (x :: xs) = words xs := words_append_cons [] xs h

theorem words_blanks_append (h : ∀ x ∈ gap, isBlank x) : words (gap ++ ys) = words ys := by
  induction gap with
  | nil => rfl
  | cons x rest ih =>
    rw [List.cons_append, words_blank_cons (h x List.mem_cons_self)]
    exact ih fun y hy => h y (List.mem_cons_of_mem x hy)

/-- Blanks separate, however many they are. -/
theorem words_append_blanks_append (xs ys : List Char)
    (h : gap ≠ [] ∧ ∀ x ∈ gap, isBlank x) : words (xs ++ (gap ++ ys)) = words xs ++ words ys := by
  obtain ⟨hne, hblank⟩ := h
  cases gap with
  | nil => exact absurd rfl hne
  | cons x rest =>
    rw [List.cons_append, words_append_cons _ _ (hblank x List.mem_cons_self),
      words_blanks_append fun y hy => hblank y (List.mem_cons_of_mem x hy)]

theorem words_word (h : word ≠ [] ∧ ∀ x ∈ word, ¬isBlank x) : words word = [word] := by
  have hsplit : word.splitOnP isBlank = [word] :=
    List.splitOnP_eq_singleton fun x hx => Bool.eq_false_iff.mpr (h.2 x hx)
  rw [words, hsplit]
  exact List.filter_cons_of_pos (bne_iff_ne.mpr h.1)

/-- A text that does not begin with a blank has words. -/
theorem words_cons_ne_nil (xs : List Char) (h : ¬isBlank x) : words (x :: xs) ≠ [] := by
  obtain ⟨piece, more, hpieces⟩ :=
    List.exists_cons_of_ne_nil (List.splitOnP_ne_nil isBlank xs)
  have hsplit : (x :: xs).splitOnP isBlank = (x :: piece) :: more := by
    rw [List.splitOnP_cons_eq_if_modifyHead, if_neg h, hpieces, List.modifyHead_cons]
  rw [words, hsplit]
  exact List.ne_nil_of_mem (List.mem_filter.mpr ⟨.head more, rfl⟩)

end Words

/-! ## Lines -/

section Lines

variable {α : Type} [DecidableEq α] {lf cr : α} {piece rest : List α}

/-- What is said of texts holds of all of them if it holds of those without a line feed, and holds of
a text if it holds of what stands behind the first line feed. -/
@[elab_as_elim]
theorem line_induction (lf : α) {motive : List α → Prop} (text : List α)
    (last : ∀ text, lf ∉ text → motive text)
    (line : ∀ piece rest, lf ∉ piece → motive rest → motive (piece ++ lf :: rest)) :
    motive text := by
  by_cases h : lf ∈ text
  · obtain ⟨piece, rest, hsplit, hpiece⟩ := List.eq_append_cons_of_mem h
    rw [hsplit]
    exact line piece rest hpiece (line_induction lf rest last line)
  · exact last text h
termination_by text.length
decreasing_by
  rw [hsplit, List.length_append, List.length_cons]
  omega

/-- What stands behind the last line feed is a line, if there is anything. -/
theorem cutLines_of_notMem (h : lf ∉ rest) :
    cutLines lf cr rest = if rest = [] then [] else [rest] := by
  rw [cutLines, List.splitOn_eq_singleton h]
  rfl

/-- The first line ends at the first line feed. -/
theorem cutLines_append_cons (h : lf ∉ piece) :
    cutLines lf cr (piece ++ lf :: rest) = dropOne cr piece :: cutLines lf cr rest := by
  have hne : ∀ x ∈ piece, (x == lf) = false := fun x hx => beq_false_of_ne fun he => h (he ▸ hx)
  have hsplit : (piece ++ lf :: rest).splitOn lf = piece :: rest.splitOn lf := by
    rw [List.splitOn_eq_splitOnP, List.splitOn_eq_splitOnP]
    exact List.splitOnP_append_cons_of_forall_mem hne lf (BEq.rfl) rest
  rw [cutLines, hsplit, cutLines]
  cases hrest : rest.splitOn lf with
  | nil => exact absurd hrest (List.splitOn_ne_nil lf rest)
  | cons next more => rfl

end Lines

end CodeMap.Text
