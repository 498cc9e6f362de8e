import CodeMap.Proofs.Document.StoreLoad
import CodeMap.Proofs.Session.Steps

/-! # Runs in place

A run in place stores the document that it has placed where it was loaded from. A second run with
the same lines loads this document, places it as it is already placed, and leaves the tree of files
as it found it.
-/

namespace CodeMap

theorem DumpSource.linesUnder_eq_ok {settings : Settings} {source : DumpSource} {binary : String}
    {lines : List String} (hv : settings.validate = .ok ())
    (h : (source.read binary).result = .ok lines) :
    source.linesUnder settings binary = .ok lines := by
  rw [linesUnder, hv, h]
  rfl

namespace FileTree

variable {t : FileTree} {path : String} {p : Program} {settings : Settings} {lines : List String}

/-- A run in place by its parts. -/
theorem annotate_eq_ok {place : Place} {source : DumpSource} {binary : String} {u : SymbolTable}
    (hload : t.load path = .ok p) (htarget : t.target path = .ok place)
    (hdevice : t.device? place = none)
    (hlines : source.linesUnder settings binary = .ok lines)
    (hu : ((Session.start settings).ingest lines).table = u) :
    t.annotate path settings source binary =
      .ok (Report.ofProgram u p, t.put place (Text.encode (p.place u).fileText)) := by
  have hextract : ((Session.start settings).extract source binary p).result =
      .ok ⟨(Session.start settings).ingest lines, p.place u, Report.ofProgram u p⟩ := by
    rw [Session.result_extract, show (Session.start settings).settings = settings from rfl, hlines]
    subst hu
    rfl
  have hstore := store_eq_put htarget hdevice (p.place u)
  simp only [annotate, hload, hextract, hstore, bind, Except.bind]
  rfl

/-- A second run in place with the same lines gives the same report and changes no file, whatever
addresses the document has had before and whichever functions are skipped. -/
theorem annotate_annotate {first second : DumpSource} {binary other : String}
    (hload : t.load path = .ok p) (hi : p.isIntegral) (hwrite : t.refusal? path = none)
    (hvalid : settings.validate = .ok ()) (hfirst : (first.read binary).result = .ok lines)
    (hsecond : (second.read other).result = .ok lines) :
    ∃ report after, t.annotate path settings first binary = .ok (report, after) ∧
      after.annotate path settings second other = .ok (report, after) := by
  obtain ⟨place, htarget⟩ : ∃ place, t.target path = .ok place := by
    rw [refusal?] at hwrite
    split at hwrite
    · cases hwrite
    · next place htarget => exact ⟨place, htarget⟩
  have hdevice := device?_eq_none_of_load hload htarget
  obtain ⟨u, hu⟩ : ∃ u, ((Session.start settings).ingest lines).table = u := ⟨_, rfl⟩
  have honce := annotate_eq_ok hload htarget hdevice
    (DumpSource.linesUnder_eq_ok hvalid hfirst) hu
  -- what the first run has stored is loaded, and placing it once more changes nothing
  have hstored : (p.place u).IsStorable := (isStorable_of_load hload hi).place u
  have htwice := annotate_eq_ok (load_put hstored htarget hdevice) (target_put htarget _) hdevice
    (DumpSource.linesUnder_eq_ok hvalid hsecond) hu
  rw [put_put, Program.place_self, Report.ofProgram_place] at htwice
  exact ⟨_, _, honce, htwice⟩

theorem annotate_annotate_of_placed_and_skipped :
    let document := "\x7b\"machine-functions\":[\x7b\"name\":7,\"mapsto\":\"main\",\"blocks\":
      [\x7b\"name\":0,\"address\":5\x7d]\x7d,\x7b\"name\":\"f\",\"level\":-1\x7d]\x7d"
    let source := DumpSource.given ["00010000 g     F .text\t00000010 main"]
    let t := FileTree.empty.put ["main.pml"] (Text.encode document)
    ∃ report after, t.annotate "main.pml" .standard source "main" = .ok (report, after) ∧
      after.annotate "main.pml" .standard source "main" = .ok (report, after) := by
  intro document source t
  let p : Program :=
    ⟨[⟨.number 7, some "main", [⟨.number 0, some 5, [], .empty⟩], .empty⟩,
      ⟨.string "f", none, [], Dict.ofList [("level", .number (.negative 0))]⟩], .empty⟩
  have hp : (Program.read document).toOption = some p := by decide +kernel
  have hplace : (FileTree.empty.target "main.pml").toOption = some ["main.pml"] := by
    decide +kernel
  have htarget := Json.ok_of_toOption_eq_some hplace
  have hload : t.load "main.pml" = .ok p :=
    load_of_read (read_put htarget rfl _) (Json.ok_of_toOption_eq_some hp)
  have hwrite : t.refusal? "main.pml" = none := by rw [refusal?, target_put htarget]
  exact annotate_annotate hload rfl hwrite rfl rfl rfl

end FileTree

end CodeMap
