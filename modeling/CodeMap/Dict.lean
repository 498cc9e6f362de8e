/-! # Dictionaries

A dictionary maps strings to values. It keeps its entries in strictly increasing order of their
keys, so it has one representation only: two dictionaries that answer every look-up alike are
equal (`Dict.ext_get?`). Strings compare by code point, which is also the order of their bytes.
-/

namespace CodeMap

variable {α : Type}

/-- Finitely many strings, each with a value, in increasing order. -/
structure Dict (α : Type) where
  entries : List (String × α)
  sorted : entries.Pairwise fun a b => a.1 < b.1
deriving DecidableEq, Repr

namespace Dict

/-- Puts an entry into its place, over an earlier one with the same key. -/
def insertEntry (key : String) (value : α) : List (String × α) → List (String × α)
  | [] => [(key, value)]
  | entry :: rest =>
    if key < entry.1 then (key, value) :: entry :: rest
    else if key = entry.1 then (key, value) :: rest
    else entry :: insertEntry key value rest

theorem mem_insertEntry {key : String} {value : α} {entries : List (String × α)}
    {e : String × α} (h : e ∈ insertEntry key value entries) :
    e = (key, value) ∨ e ∈ entries := by
  induction entries with
  | nil => exact .inl (by simpa [insertEntry] using h)
  | cons entry rest ih =>
    unfold insertEntry at h
    split at h
    · simpa using h
    · split at h
      · rcases List.mem_cons.1 h with h | h
        · exact .inl h
        · exact .inr (List.mem_cons_of_mem _ h)
      · rcases List.mem_cons.1 h with h | h
        · exact .inr (h ▸ List.mem_cons_self)
        · exact (ih h).imp id (List.mem_cons_of_mem _)

theorem lt_of_not_lt_of_ne {a b : String} (h : ¬a < b) (hne : a ≠ b) : b < a :=
  Decidable.byContradiction fun hn => hne (String.le_antisymm hn h)

theorem sorted_insertEntry {key : String} {value : α} {entries : List (String × α)}
    (h : entries.Pairwise fun a b => a.1 < b.1) :
    (insertEntry key value entries).Pairwise fun a b => a.1 < b.1 := by
  induction entries with
  | nil => simp [insertEntry]
  | cons entry rest ih =>
    have hp := List.pairwise_cons.1 h
    unfold insertEntry
    split
    · next hlt =>
      refine List.pairwise_cons.2 ⟨fun e he => ?_, h⟩
      rcases List.mem_cons.1 he with rfl | he
      · exact hlt
      · exact String.lt_trans hlt (hp.1 e he)
    · next hnlt =>
      split
      · next heq => exact List.pairwise_cons.2 ⟨fun e he => heq ▸ hp.1 e he, hp.2⟩
      · next hne =>
        refine List.pairwise_cons.2 ⟨fun e he => ?_, ih hp.2⟩
        rcases mem_insertEntry he with rfl | he
        · exact lt_of_not_lt_of_ne hnlt hne
        · exact hp.1 e he

/-- The value of the first entry with the key. -/
def find? (key : String) : List (String × α) → Option α
  | [] => none
  | entry :: rest => if key = entry.1 then some entry.2 else find? key rest

/-- The dictionary without entries. -/
def empty : Dict α := ⟨[], .nil⟩

instance : Inhabited (Dict α) := ⟨empty⟩

/-- The dictionary with one entry set. -/
def insert (d : Dict α) (key : String) (value : α) : Dict α :=
  ⟨insertEntry key value d.entries, sorted_insertEntry d.sorted⟩

/-- The value of a key. -/
def get? (d : Dict α) (key : String) : Option α := find? key d.entries

/-- The key has a value. -/
def contains (d : Dict α) (key : String) : Bool := (d.get? key).isSome

/-- The number of entries. -/
def size (d : Dict α) : Nat := d.entries.length

/-- The entries inserted one after another; of entries with one key the last stays. -/
def ofList (entries : List (String × α)) : Dict α :=
  entries.foldl (fun d e => d.insert e.1 e.2) empty

/-! ## Entries -/

theorem insertEntry_of_lt {entries : List (String × α)} {key : String} (value : α)
    (h : ∀ e ∈ entries, e.1 < key) : insertEntry key value entries = entries ++ [(key, value)] := by
  induction entries with
  | nil => rfl
  | cons entry rest ih =>
    have hlt := h entry List.mem_cons_self
    have hne : key ≠ entry.1 := fun he => String.lt_irrefl _ (he ▸ hlt)
    rw [insertEntry, if_neg (String.lt_asymm hlt), if_neg hne,
      ih fun e he => h e (List.mem_cons_of_mem _ he), List.cons_append]

/-- Entries that come in order are put behind one another. -/
theorem entries_foldl_insert {d : Dict α} {es : List (String × α)}
    (h : (d.entries ++ es).Pairwise fun a b => a.1 < b.1) :
    (es.foldl (fun d e => d.insert e.1 e.2) d).entries = d.entries ++ es := by
  induction es generalizing d with
  | nil => rw [List.foldl_nil, List.append_nil]
  | cons e rest ih =>
    have hins : (d.insert e.1 e.2).entries = d.entries ++ [e] :=
      insertEntry_of_lt e.2 fun x hx =>
        (List.pairwise_append.mp h).2.2 x hx e List.mem_cons_self
    rw [List.foldl_cons, ih (by rw [hins]; simpa using h), hins, List.append_assoc,
      List.singleton_append]

@[simp] theorem ofList_entries (d : Dict α) : ofList d.entries = d := by
  have h := entries_foldl_insert (d := empty) d.sorted
  cases d with
  | mk es hs =>
    have he : (ofList es).entries = es := h
    cases hd : ofList es with
    | mk xs hx =>
      rw [hd] at he
      cases he
      rfl

theorem mem_of_mem_foldl_insert {d : Dict α} {es : List (String × α)} {e : String × α}
    (h : e ∈ (es.foldl (fun d e => d.insert e.1 e.2) d).entries) : e ∈ d.entries ∨ e ∈ es := by
  induction es generalizing d with
  | nil => exact .inl h
  | cons x rest ih =>
    rcases ih h with hd | hrest
    · rcases mem_insertEntry hd with rfl | hd
      · exact .inr List.mem_cons_self
      · exact .inl hd
    · exact .inr (List.mem_cons_of_mem _ hrest)

/-- Every entry of a dictionary comes from the list that it was made of. -/
theorem mem_of_mem_ofList {es : List (String × α)} {e : String × α}
    (h : e ∈ (ofList es).entries) : e ∈ es :=
  (mem_of_mem_foldl_insert h).resolve_left nofun

/-! ## Look-up -/

@[simp] theorem get?_empty (key : String) : (empty : Dict α).get? key = none := rfl

theorem find?_insertEntry (entries : List (String × α)) (key : String) (value : α)
    (other : String) :
    find? other (insertEntry key value entries) =
      if other = key then some value else find? other entries := by
  induction entries with
  | nil => rfl
  | cons entry rest ih =>
    unfold insertEntry
    split
    · rfl
    · split
      · next heq => by_cases h : other = key <;> simp [find?, h, ← heq]
      · next hne =>
        by_cases h : other = entry.1
        · simp [find?, h, Ne.symm hne]
        · simp [find?, h, ih]

theorem get?_insert (d : Dict α) (key : String) (value : α) (other : String) :
    (d.insert key value).get? other = if other = key then some value else d.get? other :=
  find?_insertEntry d.entries key value other

theorem find?_eq_none_of_lt {entries : List (String × α)} {key : String}
    (h : ∀ e ∈ entries, key < e.1) : find? key entries = none := by
  induction entries with
  | nil => rfl
  | cons entry rest ih =>
    have hlt := h entry List.mem_cons_self
    have hne : key ≠ entry.1 := fun he => String.lt_irrefl _ (he ▸ hlt)
    rw [find?, if_neg hne, ih fun e he => h e (List.mem_cons_of_mem _ he)]

@[simp] theorem find?_cons_self (entry : String × α) (rest : List (String × α)) :
    find? entry.1 (entry :: rest) = some entry.2 := if_pos rfl

theorem entries_eq_of_find? {xs ys : List (String × α)}
    (hx : xs.Pairwise fun a b => a.1 < b.1) (hy : ys.Pairwise fun a b => a.1 < b.1)
    (h : ∀ key, find? key xs = find? key ys) : xs = ys := by
  induction xs generalizing ys with
  | nil =>
    cases ys with
    | nil => rfl
    | cons y ys => exact absurd (h y.1) (by simp [find?])
  | cons x xs ih =>
    cases ys with
    | nil => exact absurd (h x.1) (by simp [find?])
    | cons y ys =>
      obtain ⟨hx1, hx2⟩ := List.pairwise_cons.1 hx
      obtain ⟨hy1, hy2⟩ := List.pairwise_cons.1 hy
      have hkey : x.1 = y.1 := by
        refine Decidable.byContradiction fun hne => ?_
        by_cases hlt : x.1 < y.1
        · have hn : find? x.1 (y :: ys) = none := find?_eq_none_of_lt fun e he => by
            rcases List.mem_cons.1 he with rfl | he
            · exact hlt
            · exact String.lt_trans hlt (hy1 e he)
          exact absurd ((h x.1).trans hn) (by simp)
        · have hgt := lt_of_not_lt_of_ne hlt hne
          have hn : find? y.1 (x :: xs) = none := find?_eq_none_of_lt fun e he => by
            rcases List.mem_cons.1 he with rfl | he
            · exact hgt
            · exact String.lt_trans hgt (hx1 e he)
          exact absurd (hn.symm.trans (h y.1)) (by simp)
      have hval : x.2 = y.2 := by
        have := h x.1
        rw [find?_cons_self, hkey, find?_cons_self] at this
        exact Option.some.inj this
      have hrest : xs = ys := ih hx2 hy2 fun key => by
        by_cases hk : key = x.1
        · rw [find?_eq_none_of_lt fun e he => hk ▸ hx1 e he,
            find?_eq_none_of_lt fun e he => by rw [hk, hkey]; exact hy1 e he]
        · have := h key
          rwa [find?, find?, if_neg hk, if_neg (hkey ▸ hk)] at this
      rw [hrest, Prod.ext hkey hval]

theorem ext_get? {d e : Dict α} (h : ∀ key, d.get? key = e.get? key) : d = e := by
  cases d with
  | mk xs hx =>
    cases e with
    | mk ys hy =>
      have : xs = ys := entries_eq_of_find? hx hy h
      subst this
      rfl

end Dict

end CodeMap
