import CodeMap.Proofs.Text.Pieces
import CodeMap.Settings

/-! # Section lists read back

A list of names is written as items with commas between them: an item is a name with any blanks
around it, or it is blank (`Sections.Lists`). Every text is written in this way
(`Sections.exists_lists`), and the names that are read from it are those that it lists
(`Sections.Lists.parse_intercalate`). So names that are read can be joined with commas and are read
again as they were.
-/

namespace CodeMap

/-- The pieces of a text between marks have no mark in them. -/
theorem Text.notMem_of_mem_splitOn {mark : Char} {text : List Char} :
    ∀ piece ∈ text.splitOn mark, mark ∉ piece := by
  induction text using line_induction mark with
  | last text h =>
    rw [List.splitOn_eq_singleton h]
    exact List.forall_mem_singleton.mpr h
  | line piece rest h ih =>
    rw [List.splitOn_append_cons_self_of_not_mem h]
    exact List.forall_mem_cons.mpr ⟨h, ih⟩

namespace Sections

/-- The name can stand in a list: it is not empty, it has no comma in it, and it has no blank at its
beginning or its end. There may be blanks inside. -/
structure IsName (name : String) : Prop where
  ne_nil : name.toList ≠ []
  comma_notMem : ',' ∉ name.toList
  not_blank_of_mem_head? : ∀ x ∈ name.toList.head?, ¬Text.isBlank x
  not_blank_of_mem_getLast? : ∀ x ∈ name.toList.getLast?, ¬Text.isBlank x

/-- The items list the names: each of them is a name with blanks around it or is all blank. -/
inductive Lists : (items names : List String) → Prop
  | nil : Lists [] []
  | blank {gap : String} {items names : List String} (hgap : Text.allBlank gap)
    (h : Lists items names) : Lists (gap :: items) names
  | name {before name after : String} {items names : List String} (hname : IsName name)
    (hbefore : Text.allBlank before) (hafter : Text.allBlank after) (h : Lists items names) :
    Lists ((before ++ name ++ after) :: items) (name :: names)

theorem comma_notMem_of_allBlank {gap : String} (h : Text.allBlank gap) : ',' ∉ gap.toList :=
  fun hmem => absurd (List.all_eq_true.mp h ',' hmem) (by decide)

namespace Lists

variable {items names : List String}

theorem isName (h : Lists items names) : ∀ name ∈ names, IsName name := by
  induction h with
  | nil => exact List.forall_mem_nil _
  | blank _ _ ih => exact ih
  | name hname _ _ _ ih => exact List.forall_mem_cons.mpr ⟨hname, ih⟩

theorem comma_notMem (h : Lists items names) : ∀ item ∈ items, ',' ∉ item.toList := by
  induction h with
  | nil => exact List.forall_mem_nil _
  | blank hgap _ ih => exact List.forall_mem_cons.mpr ⟨comma_notMem_of_allBlank hgap, ih⟩
  | name hname hbefore hafter _ ih =>
    refine List.forall_mem_cons.mpr ⟨?_, ih⟩
    simp [hname.comma_notMem, comma_notMem_of_allBlank hbefore, comma_notMem_of_allBlank hafter]

/-- Names list themselves. -/
theorem self (h : ∀ name ∈ names, IsName name) : Lists names names := by
  induction names with
  | nil => exact .nil
  | cons name rest ih =>
    obtain ⟨hname, hrest⟩ := List.forall_mem_cons.mp h
    have hself : Lists (("" ++ name ++ "") :: rest) (name :: rest) := .name hname rfl rfl (ih hrest)
    rwa [String.empty_append, String.append_empty] at hself

end Lists

/-- The names of items that stood between commas. -/
def ofItems (items : List (List Char)) : List String :=
  ((items.map Text.trim).filter (· != [])).map String.ofList

theorem ofItems_cons_of_nil {item : List Char} (h : Text.trim item = [])
    (items : List (List Char)) : ofItems (item :: items) = ofItems items := by
  simp [ofItems, h]

theorem ofItems_cons_of_ne_nil {item : List Char} (h : Text.trim item ≠ [])
    (items : List (List Char)) :
    ofItems (item :: items) = String.ofList (Text.trim item) :: ofItems items := by
  simp [ofItems, h]

theorem parse_eq (list : String) : parse list = ofItems (list.toList.splitOn ',') := rfl

/-- Items give the names that they list. -/
theorem Lists.ofItems_eq {items names : List String} (h : Lists items names) :
    ofItems (items.map String.toList) = names := by
  induction h with
  | nil => rfl
  | blank hgap _ ih =>
    rw [List.map_cons, ofItems_cons_of_nil (Text.trim_eq_nil (List.all_eq_true.mp hgap)), ih]
  | @name before name after _ _ hname hbefore hafter _ ih =>
    have htrim : Text.trim (before ++ name ++ after).toList = name.toList := by
      rw [String.toList_append, String.toList_append]
      exact Text.trim_append (List.all_eq_true.mp hbefore) (List.all_eq_true.mp hafter) hname.ne_nil
        hname.not_blank_of_mem_head? hname.not_blank_of_mem_getLast?
    have hne : Text.trim (before ++ name ++ after).toList ≠ [] := htrim ▸ hname.ne_nil
    rw [List.map_cons, ofItems_cons_of_ne_nil hne, htrim, String.ofList_toList, ih]

/-- Items without commas list the names that they give. -/
theorem lists_ofItems {items : List (List Char)} (h : ∀ item ∈ items, ',' ∉ item) :
    Lists (items.map String.ofList) (ofItems items) := by
  induction items with
  | nil => exact .nil
  | cons item rest ih =>
    obtain ⟨hitem, hrest⟩ := List.forall_mem_cons.mp h
    obtain ⟨before, after, hbefore, hafter, hsplit⟩ := Text.exists_eq_append_trim_append item
    by_cases hnil : Text.trim item = []
    · rw [ofItems_cons_of_nil hnil, List.map_cons]
      refine .blank ?_ (ih hrest)
      rw [Text.allBlank, String.toList_ofList, List.all_eq_true, hsplit, hnil, List.append_nil]
      exact List.forall_mem_append.mpr ⟨hbefore, hafter⟩
    · have hname : IsName (String.ofList (Text.trim item)) := by
        constructor <;> rw [String.toList_ofList]
        · exact hnil
        · intro hmem
          rw [hsplit] at hitem
          exact hitem (List.mem_append_left _ (List.mem_append_right _ hmem))
        · exact fun x => Text.not_of_mem_head?_trim
        · exact fun x => Text.not_of_mem_getLast?_trim
      have hspelled : String.ofList item =
          String.ofList before ++ String.ofList (Text.trim item) ++ String.ofList after := by
        rw [← String.ofList_append, ← String.ofList_append, ← hsplit]
      rw [ofItems_cons_of_ne_nil hnil, List.map_cons, hspelled]
      exact .name hname (by simpa [Text.allBlank] using hbefore)
        (by simpa [Text.allBlank] using hafter) (ih hrest)

/-- Items that are joined with commas are read as the names that they list. -/
theorem Lists.parse_intercalate {items names : List String} (h : Lists items names) :
    parse (",".intercalate items) = names := by
  cases items with
  | nil =>
    cases h
    rfl
  | cons item rest =>
    have hcommas : ∀ piece ∈ (item :: rest).map String.toList, ',' ∉ piece :=
      List.forall_mem_map.mpr h.comma_notMem
    have hsplit : (",".intercalate (item :: rest)).toList.splitOn ',' =
        (item :: rest).map String.toList := by
      rw [String.toList_intercalate]
      exact List.splitOn_intercalate ',' hcommas (List.cons_ne_nil _ _)
    rw [parse_eq, hsplit, h.ofItems_eq]

/-- Every text is items that list the names read from it, joined with commas. -/
theorem exists_lists (list : String) :
    ∃ items, Lists items (parse list) ∧ list = ",".intercalate items := by
  refine ⟨(list.toList.splitOn ',').map String.ofList,
    lists_ofItems Text.notMem_of_mem_splitOn, ?_⟩
  rw [← String.toList_inj, String.toList_intercalate, List.map_map]
  simp [Function.comp_def, List.intercalate_splitOn]

/-- **Section lists read back.** What is read from a list are names that can stand in one, and
joined with commas they are read again as they were. A list is read as certain names exactly if its
items list them: each name in its order, as often as it comes, with any blanks around it and any
number of blank items before, between and behind. -/
theorem parse_reads_what_is_listed (list : String) (names : List String) :
    (∀ name ∈ parse list, IsName name) ∧ parse (",".intercalate (parse list)) = parse list ∧
      (parse list = names ↔ ∃ items, Lists items names ∧ list = ",".intercalate items) := by
  obtain ⟨items, hlists, hlist⟩ := exists_lists list
  refine ⟨hlists.isName, (Lists.self hlists.isName).parse_intercalate, ?_, ?_⟩
  · rintro rfl
    exact ⟨items, hlists, hlist⟩
  · rintro ⟨_, h, rfl⟩
    exact h.parse_intercalate

/-- Blanks inside a name stay, and a name may come twice. -/
example : parse ", .text\u2003,,a b,.text ," = [".text", "a b", ".text"] := by decide +kernel

end Sections

end CodeMap
