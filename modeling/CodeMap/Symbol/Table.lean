import CodeMap.Symbol.Row
import Std.Data.ExtTreeMap

/-! # Symbol tables

A symbol table gives labels their addresses. It is filled from the rows of a dump that lie in the
code sections; a label that occurs again takes the later address. Two tables that answer every
look-up alike are equal.
-/

namespace CodeMap

/-- The addresses of labels. -/
structure SymbolTable where
  addresses : Std.ExtTreeMap String UInt64
deriving DecidableEq

namespace SymbolTable

/-- The table without labels. -/
def empty : SymbolTable := ⟨∅⟩

instance : Inhabited SymbolTable := ⟨empty⟩

/-- The address of a label. -/
def get? (t : SymbolTable) (label : String) : Option UInt64 := t.addresses[label]?

/-- The label has an address. -/
def contains (t : SymbolTable) (label : String) : Bool := t.addresses.contains label

/-- The number of labels. -/
def size (t : SymbolTable) : Nat := t.addresses.size

/-- The table with the address of one label set. -/
def insert (t : SymbolTable) (label : String) (address : UInt64) : SymbolTable :=
  ⟨t.addresses.insert label address⟩

/-- The table of pairs inserted one after another. -/
def ofPairs (pairs : List (String × UInt64)) : SymbolTable :=
  pairs.foldl (fun t p => t.insert p.1 p.2) empty

@[simp] theorem get?_empty (label : String) : empty.get? label = none := by
  simp [empty, get?]

theorem get?_insert (t : SymbolTable) (label : String) (address : UInt64) (other : String) :
    (t.insert label address).get? other = if label = other then some address
      else t.get? other := by
  simp [insert, get?, Std.ExtTreeMap.getElem?_insert]

theorem contains_eq_isSome (t : SymbolTable) (label : String) :
    t.contains label = (t.get? label).isSome := by
  simp [contains, get?]

theorem ext_get? {t u : SymbolTable} (h : ∀ label, t.get? label = u.get? label) : t = u := by
  cases t with
  | mk s =>
    cases u with
    | mk r => exact congrArg mk (Std.ExtTreeMap.ext_getElem? h)

/-! ## Rows -/

/-- The rows among the lines of a dump. -/
def rows (lines : List String) : List SymbolRow := lines.filterMap SymbolRow.ofLine?

/-- The rows of a dump that lie in one of the sections, in order. -/
def accepted (sections : List String) (lines : List String) : List SymbolRow :=
  (rows lines).filter fun r => sections.contains r.sectionName

/-- The table with the rows entered one after another. -/
def enter (t : SymbolTable) (rows : List SymbolRow) : SymbolTable :=
  rows.foldl (fun t r => t.insert r.label r.address) t

/-- A row entered into a table, and the address that its label had there before. -/
structure Entry where
  row : SymbolRow
  previous : Option UInt64
deriving DecidableEq, Repr

namespace Entry

/-- The address that the entry has replaced by another one. -/
def replaced? (e : Entry) : Option UInt64 := e.previous.filter (· != e.row.address)

end Entry

/-- The entries made when the rows are entered one after another. -/
def entries (t : SymbolTable) : List SymbolRow → List Entry
  | [] => []
  | r :: rest => ⟨r, t.get? r.label⟩ :: entries (t.insert r.label r.address) rest

/-- The table with the accepted rows of a dump. -/
def extend (t : SymbolTable) (sections lines : List String) : SymbolTable :=
  t.enter (accepted sections lines)

/-- The table of a dump. -/
def ofLines (sections lines : List String) : SymbolTable := empty.extend sections lines

@[simp] theorem enter_nil (t : SymbolTable) : t.enter [] = t := rfl

@[simp] theorem enter_cons (t : SymbolTable) (r : SymbolRow) (rest : List SymbolRow) :
    t.enter (r :: rest) = (t.insert r.label r.address).enter rest := rfl

theorem enter_append (t : SymbolTable) (rows more : List SymbolRow) :
    t.enter (rows ++ more) = (t.enter rows).enter more := List.foldl_append ..

theorem entries_append (t : SymbolTable) (rows more : List SymbolRow) :
    t.entries (rows ++ more) = t.entries rows ++ (t.enter rows).entries more := by
  induction rows generalizing t with
  | nil => rfl
  | cons r rest ih => exact congrArg (_ :: ·) (ih (t.insert r.label r.address))

theorem rows_append (lines more : List String) : rows (lines ++ more) = rows lines ++ rows more :=
  List.filterMap_append ..

theorem accepted_append (sections lines more : List String) :
    accepted sections (lines ++ more) = accepted sections lines ++ accepted sections more := by
  simp [accepted, rows_append]

end SymbolTable

end CodeMap
