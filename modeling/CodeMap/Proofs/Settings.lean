import CodeMap.Proofs.Json.RecordTexts
import CodeMap.Proofs.Text.Encoding
import CodeMap.Settings

/-! # Settings that are given in part

A file gives some of the settings, in any order and among members that mean nothing here; what it
does not give is standard (`Settings.given`). Whichever members they are, the draft behind them
holds what they give (`Settings.draft`), so a file is read as what it gives, or it is refused as a
whole (`Settings.ofFile_fills_in`).
-/

namespace CodeMap

open Json

theorem FileRead.parse_of_not_encoded {α : Type} {bytes : Text.Bytes}
    (h : ∀ text, bytes ≠ Text.encode text) (read : String → Except Refusal α) :
    ∃ reason, FileRead.parse (.ok bytes) read = .error (.io reason) := by
  have hdecode : Text.decode? bytes = none := by
    refine Option.eq_none_iff_forall_ne_some.mpr fun text htext => ?_
    exact h _ (Text.decode?_eq_some_iff.mp htext)
  refine ⟨"stream did not contain valid UTF-8", ?_⟩
  rw [parse, text]
  simp only [hdecode]

namespace Settings

/-- The members of the written form. -/
def members (s : Settings) : List (String × Json) :=
  [("objdump", .string s.dumper), ("text_sections", .array (s.sections.map .string)),
    ("debug", .bool s.debug), ("stats", .bool s.stats),
    ("timeout_seconds", .natural s.timeoutSeconds)]

theorem toJson_eq_object (s : Settings) : s.toJson = .object s.members := rfl

theorem map_fst_members (s : Settings) : s.members.map Prod.fst = record.keys := rfl

/-! ## Fields -/

/-- What the value of a field makes of a draft. -/
def Draft.setField? (key : String) (d : Draft) (v : Json) : Option Draft :=
  match key with
  | "objdump" => v.string?.map fun s => { d with dumper := some s }
  | "text_sections" => (list? string? v).map fun ss => { d with sections := some ss }
  | "debug" => v.boolean?.map fun b => { d with debug := some b }
  | "stats" => v.boolean?.map fun b => { d with stats := some b }
  | "timeout_seconds" => v.word64?.map fun n => { d with timeoutSeconds := some n }
  | _ => none

def keyForms : List KeyForm :=
  [⟨"objdump", false, IsString⟩, ⟨"text_sections", false, IsArrayOf IsString⟩,
    ⟨"debug", false, IsBoolean⟩, ⟨"stats", false, IsBoolean⟩,
    ⟨"timeout_seconds", false, IsBelow UInt64.size⟩]

theorem record_fits : record.Fits Draft.setField? (fun d _ _ => d) keyForms where
  keys_eq := rfl
  isSet_start := by simp [record]
  isSome_iff := by
    simp only [keyForms, List.forall_mem_cons, Draft.setField?, Option.isSome_map]
    exact ⟨fun _ _ => isSome_string?_iff, fun _ _ => isSome_list?_iff fun _ => isSome_string?_iff,
      fun _ _ => isSome_boolean?_iff, fun _ _ => isSome_boolean?_iff,
      fun _ _ => isSome_word64?_iff, List.forall_mem_nil _⟩
  isSet_field := by
    simp only [record, List.forall_mem_cons]
    refine ⟨?_, ?_, ?_, ?_, ?_, List.forall_mem_nil _⟩ <;>
    · intro key d v next h
      unfold Draft.setField? at h
      split at h
      case h_6 => cases h
      all_goals
        obtain ⟨_, -, rfl⟩ := Option.map_eq_some_iff.mp h
        simp
  isSet_carry := by simp
  isSome_finish_iff d := by simp [record, keyForms, Except.toOption]

/-- A value of one of the forms holds no fraction, and it is no deeper than a reader goes. -/
theorem isIntegral_of_form {f : KeyForm} (hf : f ∈ keyForms) {v : Json} (h : f.form v) :
    v.isIntegral ∧ v.fits 126 := by
  revert f
  simp only [keyForms, List.forall_mem_cons]
  refine ⟨?_, ?_, ?_, ?_, ?_, List.forall_mem_nil _⟩
  · rintro ⟨s, rfl⟩
    exact ⟨rfl, rfl⟩
  · rintro ⟨vs, rfl, hvs⟩
    constructor
    · refine isIntegral_array.mpr fun w hw => ?_
      obtain ⟨s, rfl⟩ := hvs w hw
      rfl
    · refine List.all_eq_true.mpr fun w hw => ?_
      obtain ⟨s, rfl⟩ := hvs w hw
      rfl
  · rintro ⟨b, rfl⟩
    exact ⟨rfl, rfl⟩
  · rintro ⟨b, rfl⟩
    exact ⟨rfl, rfl⟩
  · rintro ⟨n, -, rfl⟩
    exact ⟨rfl, rfl⟩

theorem mem_keys_of_setField? {key : String} {d next : Draft} {v : Json}
    (h : Draft.setField? key d v = some next) : key ∈ record.keys := by
  unfold Draft.setField? at h
  split at h
  case h_6 => cases h
  all_goals decide

theorem isIntegral_of_setField? {key : String} {d next : Draft} {v : Json}
    (h : Draft.setField? key d v = some next) : v.isIntegral ∧ v.fits 126 := by
  obtain ⟨f, hf, rfl⟩ := List.mem_map.mp (record_fits.keys_eq ▸ mem_keys_of_setField? h)
  exact isIntegral_of_form hf ((record_fits.isSome_iff f hf d v).mp (Option.isSome_of_eq_some h))

theorem record_isLenient : record.IsLenient 126 Draft.setField? where
  other_eq _ _ := rfl
  decodes := by
    simp only [record, List.forall_mem_cons]
    refine ⟨?_, ?_, ?_, ?_, ?_, List.forall_mem_nil _⟩ <;> intro d
    · exact Reader.decodes_string.map _
    · exact (Reader.decodes_list Reader.decodes_string).map _
    · exact Reader.decodes_boolean.map _
    · exact Reader.decodes_boolean.map _
    · exact Reader.decodes_word64.map _
  accepts := by
    simp only [record, List.forall_mem_cons]
    refine ⟨?_, ?_, ?_, ?_, ?_, List.forall_mem_nil _⟩ <;> intro d
    · exact Reader.accepts_string.map _
    · exact (Reader.accepts_list Reader.accepts_string).map _
    · exact Reader.accepts_boolean.map _
    · exact Reader.accepts_boolean.map _
    · exact Reader.accepts_word64.map _
  isIntegral h := (isIntegral_of_setField? h).1
  fits h := (isIntegral_of_setField? h).2

/-! ## What is given -/

/-- These settings where their keys are given, and the standard ones elsewhere. -/
def given (s : Settings) (keys : List String) : Settings where
  dumper := if "objdump" ∈ keys then s.dumper else standard.dumper
  sections := if "text_sections" ∈ keys then s.sections else standard.sections
  debug := if "debug" ∈ keys then s.debug else standard.debug
  stats := if "stats" ∈ keys then s.stats else standard.stats
  timeoutSeconds :=
    if "timeout_seconds" ∈ keys then s.timeoutSeconds else standard.timeoutSeconds

/-- The draft that holds these settings where their keys are given. -/
def draft (s : Settings) (keys : List String) : Draft where
  dumper := if "objdump" ∈ keys then some s.dumper else none
  sections := if "text_sections" ∈ keys then some s.sections else none
  debug := if "debug" ∈ keys then some s.debug else none
  stats := if "stats" ∈ keys then some s.stats else none
  timeoutSeconds := if "timeout_seconds" ∈ keys then some s.timeoutSeconds else none

variable {s : Settings}

theorem finish_draft (keys : List String) : record.finish (s.draft keys) = .ok (s.given keys) := by
  simp only [record, draft, given]
  congr 2 <;> split <;> rfl

theorem given_keys (s : Settings) : s.given record.keys = s := by
  simp [given, record, Record.keys]

theorem word64?_natural (n : UInt64) : word64? (.natural n) = some n := by
  have hn : n.toNat ≤ Width.greatest .word64 := Nat.le_of_lt_succ n.toNat_lt
  simp [word64?, natural?, natural, hn]

theorem list?_strings (ss : List String) : list? string? (.array (ss.map .string)) = some ss := by
  rw [list?]
  induction ss with
  | nil => rfl
  | cons s ss ih =>
    rw [List.map_cons, List.mapM_cons, ih]
    rfl

/-- A member of the written form sets its own part of the draft. -/
theorem setField?_member {m : String × Json} (hm : m ∈ s.members) (keys : List String) :
    Draft.setField? m.1 (s.draft keys) m.2 = some (s.draft (m.1 :: keys)) := by
  revert m
  simp only [members, List.forall_mem_cons]
  refine ⟨?_, ?_, ?_, ?_, ?_, List.forall_mem_nil _⟩
  · simp [Draft.setField?, draft, string?]
  · simp [Draft.setField?, draft, list?_strings]
  · simp [Draft.setField?, draft, boolean?]
  · simp [Draft.setField?, draft, boolean?]
  · simp [Draft.setField?, draft, word64?_natural]

/-- A member that means nothing here makes no difference to what is given. -/
theorem draft_cons_of_notMem {key : String} (h : key ∉ record.keys) (keys : List String) :
    s.draft (key :: keys) = s.draft keys := by
  have hne : ∀ k ∈ record.keys, k ≠ key := fun k hk he => h (he ▸ hk)
  simp only [Record.keys, record, List.map_cons, List.map_nil, List.forall_mem_cons] at hne
  simp [draft, hne]

/-! ## Drafts -/

theorem isMember_of_mem {m : String × Json} (hm : m ∈ s.members) : IsMember keyForms m := by
  intro f hf hkey
  refine (record_fits.isSome_iff f hf (s.draft []) m.2).mp ?_
  rw [hkey, setField?_member hm]
  rfl

theorem eq_draft_of_put {keys : List String} {m : String × Json} {next : Draft}
    (hm : m.1 ∈ record.keys → m ∈ s.members)
    (hput : record.putKnown Draft.setField? (s.draft keys) m = some next) :
    next = s.draft (m.1 :: keys) := by
  rcases Record.put_eq_some hput with hfield | ⟨hkey, rfl⟩
  · rw [setField?_member (hm (mem_keys_of_setField? hfield))] at hfield
    exact (Option.some.inj hfield).symm
  · exact (draft_cons_of_notMem hkey keys).symm

/-- Behind some members the draft holds what they give. -/
theorem eq_draft_of_foldlM {ms : List (String × Json)} {keys : List String} {final : Draft}
    (hms : ∀ m ∈ ms, m.1 ∈ record.keys → m ∈ s.members)
    (hfold : ms.foldlM (record.putKnown Draft.setField?) (s.draft keys) = some final) :
    final = s.draft ((ms.map Prod.fst).reverse ++ keys) := by
  induction ms generalizing keys with
  | nil => exact (Option.some.inj hfold).symm
  | cons m ms ih =>
    obtain ⟨hm, hms⟩ := List.forall_mem_cons.mp hms
    rw [List.foldlM_cons] at hfold
    obtain ⟨next, hput, hfold⟩ := Option.bind_eq_some_iff.mp hfold
    rw [eq_draft_of_put hm hput] at hfold
    rw [ih hms hfold, List.map_cons, List.reverse_cons, List.append_assoc, List.singleton_append]

theorem foldlM_start {ms : List (String × Json)}
    (honce : HasOnce record.keys (ms.map Prod.fst))
    (hms : ∀ m ∈ ms, m.1 ∈ record.keys → m ∈ s.members) :
    ms.foldlM (record.putKnown Draft.setField?) record.start =
      some (s.draft (ms.map Prod.fst).reverse) := by
  have hput : ∀ m ∈ ms, m.1 ∈ record.keys →
      record.isSetAt record.start m.1 = false ∧ IsMember keyForms m := fun m hm hkey =>
    ⟨record_fits.isSetAt_start m.1, isMember_of_mem (hms m hm hkey)⟩
  obtain ⟨final, hfold⟩ :=
    Option.isSome_iff_exists.mp (record_fits.isSome_foldlM_iff.mpr ⟨honce, hput⟩)
  have hfinal : final = s.draft ((ms.map Prod.fst).reverse ++ []) := eq_draft_of_foldlM hms hfold
  rw [hfinal, List.append_nil] at hfold
  exact hfold

/-! ## Files -/

variable {parts : List (String × MemberText)} {text : String}

/-- A text whose members stand for those of the written form is read as what it gives. -/
theorem read_of_standsFor (htext : IsObjectText parts text) {ms : List (String × Json)}
    (hstands : List.Forall₂ record.StandsFor ms parts)
    (honce : HasOnce record.keys (parts.map Prod.fst))
    (hms : ∀ m ∈ ms, m.1 ∈ record.keys → m ∈ s.members) :
    record.read text = .ok (s.given (parts.map Prod.fst)) := by
  rw [← Record.map_fst_of_standsFor hstands] at honce ⊢
  refine (record_isLenient.read_eq_ok_iff htext).mpr ⟨ms, _, hstands, foldlM_start honce hms, ?_⟩
  rw [finish_draft]
  simp only [given, List.mem_reverse]

theorem exists_members (h : ∀ t ∈ parts, ∀ v, (t.1, v) ∈ s.members → v.SpelledBy t.2.value.text) :
    ∃ ms : List (String × Json), List.Forall₂ record.StandsFor ms parts ∧
      ∀ m ∈ ms, m.1 ∈ record.keys → m ∈ s.members := by
  induction parts with
  | nil => exact ⟨[], .nil, List.forall_mem_nil _⟩
  | cons t parts ih =>
    obtain ⟨ht, hparts⟩ := List.forall_mem_cons.mp h
    obtain ⟨ms, hstands, hms⟩ := ih hparts
    by_cases hkey : t.1 ∈ record.keys
    · obtain ⟨m, hm, hmt⟩ : ∃ m ∈ s.members, m.1 = t.1 := List.mem_map.mp hkey
      have hspelled := ht m.2 (hmt ▸ hm)
      exact ⟨m :: ms, .cons ⟨hmt, fun _ => hspelled⟩ hstands,
        List.forall_mem_cons.mpr ⟨fun _ => hm, hms⟩⟩
    · exact ⟨(t.1, .null) :: ms, .cons ⟨rfl, fun hmem => absurd hmem hkey⟩ hstands,
        List.forall_mem_cons.mpr ⟨fun hmem => absurd hmem hkey, hms⟩⟩

/-- A text that gives some of the settings is read as those, and standard ones elsewhere. -/
theorem read_of_spelled (htext : IsObjectText parts text)
    (honce : HasOnce record.keys (parts.map Prod.fst))
    (h : ∀ t ∈ parts, ∀ v, (t.1, v) ∈ s.members → v.SpelledBy t.2.value.text) :
    record.read text = .ok (s.given (parts.map Prod.fst)) := by
  obtain ⟨ms, hstands, hms⟩ := exists_members h
  exact read_of_standsFor htext hstands honce hms

/-- A text of the written form is read as the settings that were written. -/
theorem read_of_hasText (h : s.toJson.HasText text) : record.read text = .ok s := by
  rw [toJson_eq_object] at h
  obtain ⟨parts, hparts, htext, hspelled⟩ := h.exists_isObjectText
  have hkeys : (parts.map fun m => (m.1.1, m.2)).map Prod.fst = record.keys := by
    rw [← s.map_fst_members, ← hparts, List.map_map, List.map_map]
    rfl
  have hstands : List.Forall₂ record.StandsFor (parts.map Prod.fst)
      (parts.map fun m => (m.1.1, m.2)) :=
    List.forall₂_map_left_iff.mpr <| List.forall₂_map_right_iff.mpr <|
      List.forall₂_same.mpr fun m hm => ⟨rfl, fun _ => hspelled m hm⟩
  have hread := read_of_standsFor (s := s) htext hstands (by rw [hkeys]; decide)
    fun m hm _ => hparts ▸ hm
  rwa [hkeys, given_keys] at hread

theorem isIntegral_toJson (s : Settings) : s.toJson.isIntegral := by
  rw [toJson_eq_object]
  refine isIntegral_object.mpr fun m hm => ?_
  exact (isIntegral_of_setField? (setField?_member hm [])).1

/-- A text that is read gives every key once, and a value of its form for it. -/
theorem once_of_read (htext : IsObjectText parts text) (h : record.read text = .ok s) :
    HasOnce record.keys (parts.map Prod.fst) ∧
      ∀ t ∈ parts, ∀ f ∈ keyForms, f.key = t.1 → ∃ v, f.form v ∧ v.SpelledBy t.2.value.text := by
  obtain ⟨ms, final, hstands, hfold, -⟩ := (record_isLenient.read_eq_ok_iff htext).mp h
  obtain ⟨honce, hforms⟩ := record_fits.isSome_foldlM_iff.mp (Option.isSome_of_eq_some hfold)
  refine ⟨Record.map_fst_of_standsFor hstands ▸ honce, fun t ht f hf hkey => ?_⟩
  obtain ⟨m, hm, hmt⟩ := Record.exists_standsFor hstands ht
  have hknown : m.1 ∈ record.keys := by
    rw [hmt.key_eq, ← hkey, record_fits.keys_eq]
    exact List.mem_map_of_mem hf
  obtain ⟨-, hmember⟩ := hforms m hm hknown
  exact ⟨m.2, hmember f hf (hkey.trans hmt.key_eq.symm), hmt.spelledBy hknown⟩

theorem ofFile_encode (text : String) :
    ofFile (.ok (Text.encode text)) = (record.read text).mapError Failure.ofRefusal :=
  FileRead.parse_encode text record.read

/-- A file is read as the settings that it gives, whichever members it has besides these and in
whatever order, and as standard ones where it gives none; from their written form settings come
back. A file in which a key comes twice, or has no value of its form, is malformed, and one that is
no text cannot be read. -/
theorem ofFile_fills_in (s : Settings) :
    (∀ parts text, IsObjectText parts text → HasOnce record.keys (parts.map Prod.fst) →
      (∀ t ∈ parts, ∀ v, (t.1, v) ∈ s.members → v.SpelledBy t.2.value.text) →
        ofFile (.ok (Text.encode text)) = .ok (s.given (parts.map Prod.fst))) ∧
    (∀ text, s.toJson.HasText text → ofFile (.ok (Text.encode text)) = .ok s) ∧
    (∀ style, ofFile (.ok (Text.encode (String.ofList (s.toJson.render style 0)))) = .ok s) ∧
    (∀ parts text, IsObjectText parts text →
      (¬HasOnce record.keys (parts.map Prod.fst) ∨ ∃ t ∈ parts, ∃ f ∈ keyForms, f.key = t.1 ∧
        ∀ v, f.form v → ¬v.SpelledBy t.2.value.text) →
      ∃ reason, ofFile (.ok (Text.encode text)) = .error (.malformed reason)) ∧
    ∀ bytes, (∀ text, bytes ≠ Text.encode text) →
      ∃ reason, ofFile (.ok bytes) = .error (.io reason) := by
  have hwritten : ∀ text, s.toJson.HasText text → ofFile (.ok (Text.encode text)) = .ok s := by
    intro text htext
    rw [ofFile_encode, read_of_hasText htext]
    rfl
  refine ⟨fun parts text htext honce hspelled => ?_, hwritten,
    fun style => hwritten _ (hasText_render style s.isIntegral_toJson),
    fun parts text htext hbad => ?_,
    fun bytes hbytes => FileRead.parse_of_not_encoded hbytes record.read⟩
  · rw [ofFile_encode, read_of_spelled htext honce hspelled]
    rfl
  · rw [ofFile_encode]
    cases hread : record.read text with
    | error refusal => exact ⟨refusal.message, rfl⟩
    | ok given =>
      obtain ⟨honce, hforms⟩ := once_of_read htext hread
      rcases hbad with hnot | ⟨t, ht, f, hf, hkey, hnone⟩
      · exact absurd honce hnot
      · obtain ⟨v, hv, hspelled⟩ := hforms t ht f hf hkey
        exact absurd hspelled (hnone v hv)

/-- Counts are wanted, behind a number that is no setting; said twice, nothing is read. -/
theorem ofFile_fills_in_behind_number :
    let once := "\x7b\"x\":-0.5,\"stats\":true\x7d"
    let twice := "\x7b\"stats\":true,\"stats\":true\x7d"
    ofFile (.ok (Text.encode once)) = .ok { standard with stats := true } ∧
      ∃ reason, ofFile (.ok (Text.encode twice)) = .error (.malformed reason) := by
  intro once twice
  let x : String × MemberText := ("x", ⟨.bare (renderString "x"), .bare ['-', '0', '.', '5']⟩)
  let stats : String × MemberText :=
    ("stats", ⟨.bare (renderString "stats"), .bare ['t', 'r', 'u', 'e']⟩)
  have hx : IsValueText ['-', '0', '.', '5'] :=
    .number ⟨['-'], ['0'], ['.', '5'], [], by decide,
      ⟨⟨List.cons_ne_nil _ _, List.forall_mem_singleton.mpr rfl⟩, fun _ => rfl⟩,
      .digits ⟨List.cons_ne_nil _ _, List.forall_mem_singleton.mpr rfl⟩, .absent, rfl⟩
  have hobject : ∀ parts : List (String × MemberText), (∀ m ∈ parts, m = x ∨ m = stats) →
      ∀ text : String, text.toList = enclosed '\x7b' '\x7d' (parts.map fun m => m.2.full) [] →
        IsObjectText parts text := by
    intro parts hparts text htext
    refine ⟨fun m hm => ?_, fun m hm => ?_, .bare text.toList, [], List.forall_mem_nil _, htext, ?_⟩
    · rcases hparts m hm with rfl | rfl <;> exact spelledString_render _
    · rcases hparts m hm with rfl | rfl
      · exact hx
      · exact .isTrue
    · rw [Padded.full_after, List.nil_append, String.ofList_toList]
  obtain ⟨hgiven, -, -, hbad, -⟩ := ofFile_fills_in { standard with stats := true }
  have honce := hobject [x, stats] (by simp) once (by decide +kernel)
  have htwice := hobject [stats, stats] (by simp) twice (by decide +kernel)
  refine ⟨hgiven _ _ honce (by decide) ?_, hbad _ _ htwice (.inl (by decide))⟩
  simp only [List.forall_mem_cons]
  refine ⟨?_, ?_, List.forall_mem_nil _⟩ <;> intro v hv
  · simp [members, x] at hv
  · obtain rfl : v = .bool true := by simpa [members, stats] using hv
    exact .isTrue

end Settings

end CodeMap
