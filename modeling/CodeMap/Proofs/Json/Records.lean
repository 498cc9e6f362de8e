import CodeMap.Json.Record
import CodeMap.Proofs.Json.Canonical

/-! # Records read back

A record is read back from its printed form if its members, taken one after another, lead to a draft
of it. Members that the record does not know come back as they were when they are carried in normal
form (`Carried`).
-/

namespace CodeMap.Json

variable {σ α : Type}

/-- Members that a record with these keys carries along: it knows none of them, and their values are
normal forms with no more than so many levels of brackets. -/
structure Carried (keys : List String) (levels : Nat) (extra : Dict Json) : Prop where
  key_notMem : ∀ e ∈ extra.entries, e.1 ∉ keys
  canonical_eq : ∀ e ∈ extra.entries, e.2.canonical = e.2
  fits : ∀ e ∈ extra.entries, e.2.fits levels

theorem carried_empty (keys : List String) (levels : Nat) : Carried keys levels .empty :=
  ⟨nofun, nofun, nofun⟩

theorem Carried.insert {keys : List String} {levels : Nat} {extra : Dict Json}
    (h : Carried keys levels extra) {key : String} {v : Json} (hkey : key ∉ keys)
    (hf : v.fits levels) : Carried keys levels (extra.insert key v.canonical) where
  key_notMem e he := by
    rcases Dict.mem_insertEntry he with rfl | he
    · exact hkey
    · exact h.key_notMem e he
  canonical_eq e he := by
    rcases Dict.mem_insertEntry he with rfl | he
    · exact canonical_canonical v
    · exact h.canonical_eq e he
  fits e he := by
    rcases Dict.mem_insertEntry he with rfl | he
    · exact fits_canonical hf
    · exact h.fits e he

namespace Record

/-- The keys that the record knows. -/
def keys (r : Record σ α) : List String := r.fields.map Field.key

theorem member_of_notMem {r : Record σ α} {key : String} (h : key ∉ r.keys) (levels : Nat)
    (draft : σ) : r.member levels draft key = .ok (r.other levels draft key) := by
  have hfind : (r.fields.find? fun f => f.key == key) = none := by
    rw [List.find?_eq_none]
    intro f hf he
    apply h
    exact eq_of_beq he ▸ List.mem_map_of_mem hf
  rw [member, hfind]

theorem run_reader_eq_ok {r : Record σ α} {levels : Nat} {s rest : List Char} {a : α} :
    (r.reader levels).run s = .ok (a, rest) ↔
      ∃ draft, r.runDraft levels s = .ok (draft, rest) ∧ r.finish draft = .ok a := by
  simp only [reader]
  constructor
  · intro h
    split at h
    · cases h
    · next draft _ hdraft =>
      split at h
      · next hfinish =>
        cases h
        exact ⟨draft, hdraft, hfinish⟩
      · cases h
  · rintro ⟨draft, hdraft, hfinish⟩
    rw [hdraft]
    simp only [hfinish]

/-- A record is read from its printed form, if its members fill a draft of it. -/
theorem reads {r : Record σ α} {levels : Nat} {ms : List (String × Json)} {final : σ} {a : α}
    (h : Fills (r.member levels) r.start ms final) (hfinish : r.finish final = .ok a) :
    (r.reader (levels + 1)).Reads (.object ms) a where
  isReal_eq := rfl
  run_eq style depth blanks rest hb _ := by
    obtain ⟨body, hbody, hrun⟩ := runMembers_render h style depth
    refine run_reader_eq_ok.mpr ⟨final, ?_, hfinish⟩
    rw [hbody, List.cons_append, runDraft, skipBlanks_append hb (by decide)]
    exact hrun _ rest

/-- Members that are carried along are gathered as they are, if their numbers are integers. Of the
draft only the part that gathers them changes. -/
theorem fills_carried {r : Record σ α} {levels : Nat} {extra : Dict Json}
    (h : Carried r.keys levels extra) (hi : ∀ e ∈ extra.entries, e.2.isIntegral)
    (draft : Dict Json → σ)
    (hother : ∀ x key, r.other levels (draft x) key =
      (Reader.value levels).map fun v => draft (x.insert key v.canonical)) :
    Fills (r.member levels) (draft .empty) extra.entries (draft extra) := by
  have key : ∀ (es : List (String × Json)) (x : Dict Json), (∀ e ∈ es, e ∈ extra.entries) →
      Fills (r.member levels) (draft x) es (draft (es.foldl (fun d e => d.insert e.1 e.2) x)) := by
    intro es
    induction es with
    | nil => exact fun x _ => .nil
    | cons e es ih =>
      intro x hes
      have he := hes e List.mem_cons_self
      have hvalue := Reader.reads_value (h.fits e he) (hi e he)
      have hread := hvalue.map fun v => draft (x.insert e.1 v.canonical)
      rw [← hother, h.canonical_eq e he] at hread
      exact .cons (member_of_notMem (h.key_notMem e he) levels _) hread
        (ih _ fun m hm => hes m (List.mem_cons_of_mem _ hm))
  have hfills := key extra.entries .empty fun _ he => he
  rwa [show extra.entries.foldl (fun d e => d.insert e.1 e.2) .empty = extra from
    extra.ofList_entries] at hfills

end Record

end CodeMap.Json
