import CodeMap.Placement.Events
import CodeMap.Proofs.InPlace
import CodeMap.Proofs.Symbol.Ingestion
import CodeMap.Symbol.Reading

/-! # Redefined labels

While a dump is read, a row is logged as a redefinition if its label has another address up to then,
from the table or from a row before it. If no row is, then all of them agree with each other and
with the table: so no address is lost, and the lines may as well be read in any other order
(`SymbolTable.silence_allows_any_order`).
-/

namespace CodeMap.SymbolTable

open InPlace

/-! ## The log -/

section Log

variable (report : SymbolRow → List Event) (t : SymbolTable) (sections : List String)

/-- The events of rows entered one after another, each of them reported first. -/
def loggedEvents (rows : List SymbolRow) : List Event :=
  (t.entries rows).flatMap fun e => report e.row ++ e.event?.toList

theorem loggedEvents_append (rows more : List SymbolRow) :
    t.loggedEvents report (rows ++ more) =
      t.loggedEvents report rows ++ (t.enter rows).loggedEvents report more := by
  rw [loggedEvents, entries_append, List.flatMap_append]
  rfl

theorem loggedEvents_singleton (r : SymbolRow) :
    t.loggedEvents report [r] = report r ++ (Entry.event? ⟨r, t.get? r.label⟩).toList :=
  List.append_nil _

theorem run_insertLogged (r : SymbolRow) (log : List Event) :
    (t.insertLogged r).run log =
      (t.insert r.label r.address, log ++ (Entry.event? ⟨r, t.get? r.label⟩).toList) := by
  rw [insertLogged, Entry.event?_eq]
  cases t.get? r.label with
  | none => exact congrArg (Prod.mk _) (List.append_nil log).symm
  | some previous =>
    show StateT.run (if previous ≠ r.address then _ else _) log = _
    rw [Option.bind_some]
    by_cases h : previous = r.address
    · rw [if_pos h, if_neg (not_not.mpr h)]
      exact congrArg (Prod.mk _) (List.append_nil log).symm
    · rw [if_neg h, if_pos h]
      rfl

/-- What one line does is what a dump of this line does. -/
theorem run_stepLogged (x : SymbolTable × DumpCounts) (line : String) (log : List Event) :
    (stepLogged report sections x line).run log =
      ((x.1.extend sections [line], x.2.add (.ofLines sections [line])),
        log ++ x.1.loggedEvents report (accepted sections [line])) := by
  rw [stepLogged, extend, DumpCounts.ofLines, accepted, rows, List.filterMap_cons]
  cases SymbolRow.ofLine? line with
  | none => exact congrArg (Prod.mk _) (List.append_nil log).symm
  | some r =>
    simp only [takeLogged, List.filterMap_nil, List.filter_cons, List.filter_nil]
    split
    · rw [loggedEvents_singleton, ← List.append_assoc]
      have hreport : (modify (· ++ report r) : StateM (List Event) Unit).run log =
        ((), log ++ report r) := rfl
      rw [run_bind hreport, run_bind (run_insertLogged x.1 r (log ++ report r))]
      rfl
    · exact congrArg (Prod.mk _) (List.append_nil log).symm

theorem run_foldlM_stepLogged (x : SymbolTable × DumpCounts) (lines : List String)
    (log : List Event) :
    (lines.foldlM (stepLogged report sections) x).run log =
      ((x.1.extend sections lines, x.2.add (.ofLines sections lines)),
        log ++ x.1.loggedEvents report (accepted sections lines)) := by
  induction lines generalizing x log with
  | nil => exact congrArg (Prod.mk x) (List.append_nil log).symm
  | cons line rest ih =>
    rw [List.foldlM_cons, run_bind (run_stepLogged report sections x line log), ih,
      ← List.singleton_append (l := rest), extend_append, DumpCounts.ofLines_append,
      accepted_append, loggedEvents_append, DumpCounts.add_assoc, List.append_assoc]
    rfl

/-- A dump is read as without a log, and the log tells of its accepted rows. -/
theorem run_extendLogged (lines : List String) (log : List Event) :
    (t.extendLogged report sections lines).run log =
      (t.read sections lines, log ++ t.loggedEvents report (accepted sections lines)) := by
  rw [extendLogged, run_foldlM_stepLogged, read_eq, DumpCounts.zero_add]

/-- What a session logs of the rows, it logs while it reads them. -/
theorem entryEvents_eq (verbose : Bool) (lines : List String) :
    t.entryEvents verbose (accepted sections lines) =
      ((t.extendLogged (fun r => if verbose then [.addressAdded r.label r.address] else [])
        sections lines).run []).2 := by
  rw [run_extendLogged]
  rfl

end Log

/-! ## Row by row -/

variable {t u : SymbolTable} {r : SymbolRow} {rows others : List SymbolRow}

/-- The event of a row entered behind others: its label has another address up to then. -/
def redefinition? (t : SymbolTable) (before : List SymbolRow) (r : SymbolRow) : Option Event := do
  let previous ← (t.enter before).get? r.label
  if previous = r.address then none else some (.labelRedefined r.label previous r.address)

theorem redefinition?_eq_some_iff {before : List SymbolRow} {e : Event} :
    t.redefinition? before r = some e ↔
      ∃ previous, (lastAddress? before r.label).or (t.get? r.label) = some previous ∧
        previous ≠ r.address ∧ e = .labelRedefined r.label previous r.address := by
  rw [redefinition?, get?_enter]
  constructor
  · intro h
    obtain ⟨previous, hprevious, h⟩ := Option.bind_eq_some_iff.mp h
    split at h
    · cases h
    · next hne => exact ⟨previous, hprevious, hne, (Option.some.inj h).symm⟩
  · rintro ⟨previous, hprevious, hne, rfl⟩
    rw [hprevious]
    exact if_neg hne

theorem redefinition?_eq_none_iff : t.redefinition? [] r = none ↔
    ∀ previous, t.get? r.label = some previous → previous = r.address := by
  rw [redefinition?, enter_nil]
  cases t.get? r.label with
  | none => simp
  | some previous => simp

theorem event?_eq_redefinition? (t : SymbolTable) (r : SymbolRow) :
    Entry.event? ⟨r, t.get? r.label⟩ = t.redefinition? [] r := Entry.event?_eq r _

/-- The events come row by row, in order. -/
theorem loggedEvents_eq (report : SymbolRow → List Event) (t : SymbolTable) (rows : List SymbolRow) :
    t.loggedEvents report rows = rows.zipIdx.flatMap fun p =>
      report p.1 ++ (t.redefinition? (rows.take p.2) p.1).toList := by
  induction rows generalizing t with
  | nil => rfl
  | cons r rest ih =>
    -- For the other rows, the first one is part of the table.
    rw [← List.singleton_append (l := rest), loggedEvents_append, loggedEvents_singleton,
      event?_eq_redefinition?, ih, List.singleton_append, List.zipIdx_cons, List.zipIdx_succ,
      List.flatMap_cons, List.flatMap_map]
    rfl

/-! ## Agreement -/

/-- The table `u` has all that the table `t` has, and every one of the rows. -/
structure Agrees (u t : SymbolTable) (rows : List SymbolRow) : Prop where
  table : ∀ label address, t.get? label = some address → u.get? label = some address
  row : ∀ r ∈ rows, u.get? r.label = some r.address

theorem agrees_nil (t : SymbolTable) : t.Agrees t [] := ⟨fun _ _ => id, nofun⟩

theorem agrees_cons : u.Agrees t (r :: rows) ↔
    t.redefinition? [] r = none ∧ u.Agrees (t.insert r.label r.address) rows := by
  rw [redefinition?_eq_none_iff]
  constructor
  · intro h
    have hr : u.get? r.label = some r.address := h.row r List.mem_cons_self
    refine ⟨fun previous hprevious => ?_, ⟨fun label address hget => ?_, fun s hs => ?_⟩⟩
    · exact Option.some.inj ((h.table _ _ hprevious).symm.trans hr)
    · rw [get?_insert] at hget
      split at hget
      · next hlabel => rw [← hlabel, hr, hget]
      · exact h.table label address hget
    · exact h.row s (List.mem_cons_of_mem r hs)
  · rintro ⟨hnone, htable, hrow⟩
    refine ⟨fun label address hget => htable label address ?_, List.forall_mem_cons.mpr ⟨?_, hrow⟩⟩
    · rw [get?_insert]
      split
      · next hlabel => rw [hnone address (hlabel ▸ hget)]
      · exact hget
    · apply htable
      rw [get?_insert, if_pos rfl]

theorem Agrees.perm (h : u.Agrees t rows) (hperm : others.Perm rows) : u.Agrees t others :=
  ⟨h.table, fun r hr => h.row r (hperm.mem_iff.mp hr)⟩

/-- Rows that do not contradict each other are entered in either order. -/
theorem insert_comm {s : SymbolRow} (h : r.label = s.label → r.address = s.address)
    (t : SymbolTable) :
    (t.insert r.label r.address).insert s.label s.address =
      (t.insert s.label s.address).insert r.label r.address := by
  apply ext_get?
  intro label
  rw [get?_insert, get?_insert, get?_insert, get?_insert]
  by_cases hs : s.label = label
  · by_cases hr : r.label = label
    · rw [if_pos hs, if_pos hr, h (hr.trans hs.symm)]
    · rw [if_pos hs, if_neg hr, if_pos hs]
  · rw [if_neg hs, if_neg hs]

/-- Rows that agree are entered in any order. -/
theorem Agrees.enter_eq (h : u.Agrees t rows) (hperm : others.Perm rows) :
    t.enter others = t.enter rows := by
  refine (hperm.symm.foldl_eq' (fun r hr s hs v => ?_) t).symm
  refine insert_comm (fun hlabel => Option.some.inj ?_) v
  rw [← h.row r hr, ← h.row s hs, hlabel]

/-! ## Silence -/

/-- None of the rows redefines a label when they are entered one after another. -/
def Silent (t : SymbolTable) (rows : List SymbolRow) : Prop :=
  ∀ p ∈ rows.zipIdx, t.redefinition? (rows.take p.2) p.1 = none

instance : Decidable (t.Silent rows) :=
  inferInstanceAs (Decidable (∀ p ∈ rows.zipIdx, t.redefinition? (rows.take p.2) p.1 = none))

theorem silent_cons : t.Silent (r :: rows) ↔
    t.redefinition? [] r = none ∧ (t.insert r.label r.address).Silent rows := by
  rw [Silent, List.zipIdx_cons, List.zipIdx_succ, List.forall_mem_cons, List.forall_mem_map]
  rfl

/-- Silence compares every row with what is there. In the end all of them are there. -/
theorem silent_iff : t.Silent rows ↔ (t.enter rows).Agrees t rows := by
  induction rows generalizing t with
  | nil => exact iff_of_true nofun t.agrees_nil
  | cons r rest ih => rw [silent_cons, ih, enter_cons, agrees_cons]

theorem Silent.perm (h : t.Silent rows) (hperm : others.Perm rows) : t.Silent others := by
  -- In either order the same table comes out, and whether it agrees is no matter of the order.
  have hagrees := silent_iff.mp h
  rw [silent_iff, hagrees.enter_eq hperm]
  exact hagrees.perm hperm

theorem Silent.loggedEvents_eq (h : t.Silent rows) (report : SymbolRow → List Event) :
    t.loggedEvents report rows = rows.flatMap report := by
  induction rows generalizing t with
  | nil => rfl
  | cons r rest ih =>
    obtain ⟨hr, hrest⟩ := silent_cons.mp h
    rw [← List.singleton_append (l := rest), loggedEvents_append, loggedEvents_singleton,
      event?_eq_redefinition?, hr, List.flatMap_append]
    exact congrArg _ (ih hrest)

/-- Silence is told from the messages in the log, if no report has the message itself. -/
theorem message_ne_iff {report : SymbolRow → List Event}
    (hreport : ∀ r ∈ rows, ∀ e ∈ report r, e.message ≠ "Label redefined, keeping later address") :
    (∀ e ∈ t.loggedEvents report rows, e.message ≠ "Label redefined, keeping later address") ↔
      t.Silent rows := by
  constructor
  · intro h p hp
    rw [SymbolTable.loggedEvents_eq] at h
    cases hevent : t.redefinition? (rows.take p.2) p.1 with
    | none => rfl
    | some e =>
      have hmem : e ∈ report p.1 ++ (t.redefinition? (rows.take p.2) p.1).toList := by
        rw [hevent]
        exact List.mem_concat_self
      obtain ⟨_, _, _, rfl⟩ := redefinition?_eq_some_iff.mp hevent
      exact absurd rfl (h _ (List.mem_flatMap_of_mem hp hmem))
  · intro h e he
    rw [h.loggedEvents_eq] at he
    obtain ⟨r, hr, he⟩ := List.mem_flatMap.mp he
    exact hreport r hr e he

theorem accepted_perm {lines more : List String} (sections : List String)
    (h : more.Perm lines) : (accepted sections more).Perm (accepted sections lines) :=
  (h.filterMap _).filter _

/-- Rows that redefine no label are read alike in any order of the lines. -/
theorem Silent.read_eq {sections lines more : List String} (h : t.Silent (accepted sections lines))
    (hperm : more.Perm lines) : t.read sections more = t.read sections lines := by
  have hrows : (rows more).Perm (rows lines) := hperm.filterMap _
  have haccepted := accepted_perm sections hperm
  rw [SymbolTable.read_eq, SymbolTable.read_eq, extend, extend,
    (silent_iff.mp h).enter_eq haccepted, DumpCounts.ofLines, DumpCounts.ofLines,
    hperm.length_eq, hrows.length_eq, haccepted.length_eq]

/-- **Silence allows any order.** While a dump is read, each of its accepted rows is reported, and
then it is logged as a redefinition if at that moment its label has another address, given by the
last row of the label before it or else by the table. The event has both addresses. If no row is
logged so, then the same is read from the lines in any other order, again without any such event,
and every label that the table has keeps its address. -/
theorem silence_allows_any_order (report : SymbolRow → List Event) (t : SymbolTable)
    (sections lines : List String) :
    let told := accepted sections lines
    let x := (t.extendLogged report sections lines).run []
    let redefined := "Label redefined, keeping later address"
    x = (t.read sections lines, told.zipIdx.flatMap fun p =>
        report p.1 ++ (t.redefinition? (told.take p.2) p.1).toList) ∧
      (∀ before r e, t.redefinition? before r = some e ↔
        ∃ previous, (lastAddress? before r.label).or (t.get? r.label) = some previous ∧
          previous ≠ r.address ∧ e = .labelRedefined r.label previous r.address) ∧
      (∀ label previous address,
        let e := Event.labelRedefined label previous address
        e.level = .debug ∧ e.message = redefined ∧
          e.fields = [("label", .text label), ("previous", .text (Text.hexText previous)),
            ("address", .text (Text.hexText address))]) ∧
      ((∀ r ∈ told, ∀ e ∈ report r, e.message ≠ redefined) →
        ((∀ e ∈ x.2, e.message ≠ redefined) ↔ t.Silent told)) ∧
      (t.Silent told →
        (∀ more, more.Perm lines →
          let others := accepted sections more
          (t.extendLogged report sections more).run [] = (x.1, others.flatMap report) ∧
            t.Silent others) ∧
        ∀ label address, t.get? label = some address → x.1.1.get? label = some address) := by
  intro told x redefined
  have hx : x = (t.read sections lines, t.loggedEvents report told) :=
    run_extendLogged report t sections lines []
  rw [hx]
  refine ⟨congrArg _ (loggedEvents_eq report t told), fun _ _ _ => redefinition?_eq_some_iff,
    fun _ _ _ => ⟨rfl, rfl, rfl⟩, message_ne_iff, fun hsilent => ⟨fun more hperm => ?_, ?_⟩⟩
  · have hothers := hsilent.perm (accepted_perm sections hperm)
    refine ⟨?_, hothers⟩
    rw [run_extendLogged, hothers.loggedEvents_eq, hsilent.read_eq hperm]
    rfl
  · rw [SymbolTable.read_eq]
    exact (silent_iff.mp hsilent).table

/-- A label that the table has at another address, and that two rows give different ones. When the
last of these rows is read again, with a new label, the lines may as well be swapped. -/
theorem silence_allows_any_order_of_repeated_label :
    let t : SymbolTable := .ofPairs [("dup", 0x500), ("main", 0x4000)]
    let u : SymbolTable := .ofPairs [("dup", 0x2000), ("main", 0x4000)]
    let first := "00001000 g     F .text\t00000010 dup"
    let last := "00002000 g     F .text\t00000010 dup"
    let label := "00002008 l       .text\t00000000 .LBB0_1"
    let report (r : SymbolRow) : List Event := [.addressAdded r.label r.address]
    let swapped := (u.extendLogged report [".text"] [label, last]).run []
    ((t.extendLogged report [".text"] [first, first, last]).run []).2 =
        [.addressAdded "dup" 0x1000, .labelRedefined "dup" 0x500 0x1000,
          .addressAdded "dup" 0x1000, .addressAdded "dup" 0x2000,
          .labelRedefined "dup" 0x1000 0x2000] ∧
      u.Silent (accepted [".text"] [last, label]) ∧ [label, last].Perm [last, label] ∧
      swapped.1 = ((u.extendLogged report [".text"] [last, label]).run []).1 ∧
      swapped.2 = [.addressAdded ".LBB0_1" 0x2008, .addressAdded "dup" 0x2000] ∧
      u.get? "main" = some 0x4000 ∧
      ((u.extendLogged report [".text"] [last, label]).run []).1.1.get? "main" = some 0x4000 := by
  intro t u first last label report swapped
  have hfirst : SymbolRow.ofLine? first = some ⟨0x1000, ".text", "dup"⟩ := by decide +kernel
  have hlast : SymbolRow.ofLine? last = some ⟨0x2000, ".text", "dup"⟩ := by decide +kernel
  have hlabel : SymbolRow.ofLine? label = some ⟨0x2008, ".text", ".LBB0_1"⟩ := by decide +kernel
  have hsilent : u.Silent (accepted [".text"] [last, label]) := by
    rw [accepted, rows, List.filterMap_cons_some hlast, List.filterMap_cons_some hlabel]
    decide +kernel
  have hperm : [label, last].Perm [last, label] := .swap last label []
  have hmain : u.get? "main" = some 0x4000 := by decide +kernel
  obtain ⟨hlog, -⟩ := silence_allows_any_order report t [".text"] [first, first, last]
  obtain ⟨-, -, -, -, horder⟩ := silence_allows_any_order report u [".text"] [last, label]
  obtain ⟨hany, hkept⟩ := horder hsilent
  have hswapped : swapped = _ := (hany _ hperm).1
  refine ⟨?_, hsilent, hperm, ?_, ?_, hmain, hkept "main" 0x4000 hmain⟩
  · rw [hlog, accepted, rows, List.filterMap_cons_some hfirst, List.filterMap_cons_some hfirst,
      List.filterMap_cons_some hlast]
    decide +kernel
  · rw [hswapped]
  · rw [hswapped, accepted, rows, List.filterMap_cons_some hlabel, List.filterMap_cons_some hlast]
    decide +kernel

end CodeMap.SymbolTable
