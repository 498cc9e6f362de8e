import CodeMap.Proofs.Document.Meaning
import CodeMap.Proofs.Document.RoundTrip

/-! # Documents that are spelled differently

Two values are alike (`Program.Alike`) if they are equal up to what a document leaves open: the
order of members, whether an address or a symbol is null or left out, and whether an array of parts
is empty or left out. Blanks and escapes are no part of a value. Alike values are those that mean
the same program (`Program.alike_iff`), so they are placed and written alike
(`Program.write_place_of_alike`).
-/

namespace CodeMap

open Json

theorem Name.canonical_toJson (n : Name) : n.toJson.canonical = n.toJson := by
  cases n <;> rfl

theorem Name.toJson_injective : Function.Injective toJson := fun m n h =>
  Option.some.inj (by rw [← ofJson?_toJson m, h, ofJson?_toJson])

/-- Without repeated keys, the order of the entries makes no difference. -/
theorem Dict.get?_ofList_of_perm {α : Type} {es fs : List (String × α)} (h : es.Perm fs)
    (hes : (es.map Prod.fst).Nodup) (key : String) :
    (ofList es).get? key = (ofList fs).get? key := by
  induction h with
  | nil => rfl
  | cons e _ ih => rw [get?_ofList_cons, get?_ofList_cons, ih (List.nodup_cons.mp hes).2]
  | swap d e rest =>
    have hne : e.1 ≠ d.1 := fun he => (List.nodup_cons.mp hes).1 (he ▸ List.mem_cons_self)
    simp only [get?_ofList_cons, Option.or_assoc]
    by_cases hd : key = d.1
    · rw [if_pos hd, if_neg fun he => hne (he.symm.trans hd)]
      simp
    · rw [if_neg hd]
      simp
  | trans h _ ih ih' =>
    exact (ih hes).trans (ih' ((h.map Prod.fst).nodup_iff.mp hes))

/-- The entries of other keys make no difference. -/
theorem Dict.get?_ofList_filter {α : Type} {keys : List String} {key : String} (h : key ∉ keys)
    (es : List (String × α)) :
    (ofList (es.filter (·.1 ∉ keys))).get? key = (ofList es).get? key := by
  induction es with
  | nil => rfl
  | cons e rest ih =>
    rw [get?_ofList_cons, ← ih]
    by_cases he : e.1 ∈ keys
    · have hne : key ≠ e.1 := fun hkey => h (hkey ▸ he)
      simp [he, hne]
    · simp [he, get?_ofList_cons]

namespace Json

theorem natural_injective : Function.Injective natural := fun _ _ h =>
  Number.natural.inj (number.inj h)

theorem string_injective : Function.Injective string := fun _ _ => string.inj

theorem index_injective : Function.Injective fun n : UInt32 => natural n.toUInt64 :=
  fun _ _ h => UInt32.toUInt64_inj.mp (natural_injective h)

/-! ## Alike values -/

/-- Both have an array for the key, with elements related one by one. One that is left out counts as
empty. -/
def SameItems (key : String) (R : Json → Json → Prop) (v u : Json) : Prop :=
  ∃ vs us, (v.member? key).getD (.array []) = .array vs ∧
    (u.member? key).getD (.array []) = .array us ∧ List.Forall₂ R vs us

end Json

/-- Objects agree but for some keys if their other members are the same, up to their order and up to
the order inside them, and no key is repeated. -/
theorem Json.agreeBut_of_perm {keys : List String} {ms ns : List (String × Json)}
    (h : (canonicalMembers (ms.filter (·.1 ∉ keys))).Perm
      (canonicalMembers (ns.filter (·.1 ∉ keys)))) (hms : (ms.map Prod.fst).Nodup) :
    AgreeBut keys (.object ms) (.object ns) := by
  have hnodup : ((canonicalMembers (ms.filter (·.1 ∉ keys))).map Prod.fst).Nodup := by
    rw [canonicalMembers_eq_map, List.map_map]
    exact hms.sublist (List.filter_sublist.map _)
  refine ⟨⟨ms, ns, rfl, rfl⟩, fun key hkey => ?_⟩
  have hothers (es : List (String × Json)) : ((object es).member? key).map canonical =
      (Dict.ofList (canonicalMembers (es.filter (·.1 ∉ keys)))).get? key := by
    rw [canonicalMembers_eq_map, Dict.get?_ofList_map, Dict.get?_ofList_filter hkey, member?]
  rw [hothers, hothers, Dict.get?_ofList_of_perm h hnodup]

structure Instruction.Alike (v u : Json) : Prop where
  others : AgreeBut ["address"] v u
  address : v.nonNull? "address" = u.nonNull? "address"

structure Block.Alike (v u : Json) : Prop where
  others : AgreeBut ["address", "instructions"] v u
  address : v.nonNull? "address" = u.nonNull? "address"
  instructions : SameItems "instructions" Instruction.Alike v u

structure MachineFunction.Alike (v u : Json) : Prop where
  others : AgreeBut ["mapsto", "blocks"] v u
  mapsto : v.nonNull? "mapsto" = u.nonNull? "mapsto"
  blocks : SameItems "blocks" Block.Alike v u

structure Program.Alike (v u : Json) : Prop where
  others : AgreeBut ["machine-functions"] v u
  functions : SameItems "machine-functions" MachineFunction.Alike v u

/-! ## What alike values mean -/

namespace Json

/-- Two objects agree, but for some fields, if they carry along the same and have the same in the
other fields. -/
theorem Carries.agreeBut_iff {keys : List String} {v u : Json} {extra more : Dict Json}
    (h : v.Carries keys extra) (k : u.Carries keys more) (but : List String)
    (hbut : ∀ key ∈ but, key ∈ keys) :
    AgreeBut but v u ↔ extra = more ∧ ∀ key ∈ keys.filter (· ∉ but),
      (u.member? key).map canonical = (v.member? key).map canonical := by
  obtain ⟨ms, rfl, hextra⟩ := h
  obtain ⟨ns, rfl, hmore⟩ := k
  constructor
  · rintro ⟨-, hmembers⟩
    refine ⟨Dict.ext_get? fun key => ?_, fun key hkey => ?_⟩
    · rw [hextra key, hmore key]
      by_cases hkey : key ∈ keys
      · rw [if_pos hkey, if_pos hkey]
      · rw [if_neg hkey, if_neg hkey]
        exact (hmembers key fun hk => hkey (hbut key hk)).symm
    · exact hmembers key (of_decide_eq_true (List.mem_filter.mp hkey).2)
  · rintro ⟨rfl, hfields⟩
    refine ⟨⟨ms, ns, rfl, rfl⟩, fun key hkey => ?_⟩
    by_cases hmem : key ∈ keys
    · exact hfields key (List.mem_filter.mpr ⟨hmem, decide_eq_true hkey⟩)
    · have hcarried := (hmore key).symm.trans (hextra key)
      rwa [if_neg hmem, if_neg hmem] at hcarried

/-- A field is the same in both if its value is the same. -/
theorem field_iff {α : Type} {encode : α → Json} (hinj : Function.Injective encode)
    (hcanonical : ∀ a, (encode a).canonical = encode a) {key : String} {v u : Json} {a b : α}
    (h : v.member? key = some (encode a)) (k : u.member? key = some (encode b)) :
    (u.member? key).map canonical = (v.member? key).map canonical ↔ a = b := by
  rw [h, k, Option.map_some, Option.map_some, hcanonical, hcanonical, Option.some_inj]
  exact hinj.eq_iff.trans eq_comm

/-- A member that may be left out or null stands for the same in both. -/
theorem nonNull?_iff {α : Type} {encode : α → Json} (hinj : Function.Injective encode)
    {key : String} {v u : Json} {a b : Option α} (h : v.nonNull? key = a.map encode)
    (k : u.nonNull? key = b.map encode) : v.nonNull? key = u.nonNull? key ↔ a = b := by
  rw [h, k]
  exact (Option.map_injective hinj).eq_iff

section

variable {α : Type} {means : Json → α → Prop} {R : Json → Json → Prop} {as bs : List α}

/-- Values are related one by one if they mean the same, provided that this holds of each two. -/
theorem forall₂_iff_eq (hR : ∀ v u a b, means v a → means u b → (R v u ↔ a = b))
    {vs us : List Json} (h : List.Forall₂ means vs as) (k : List.Forall₂ means us bs) :
    List.Forall₂ R vs us ↔ as = bs := by
  induction h generalizing us bs with
  | nil =>
    cases k with
    | nil => exact iff_of_true .nil rfl
    | cons => exact iff_of_false nofun nofun
  | cons hv hvs ih =>
    cases k with
    | nil => exact iff_of_false nofun nofun
    | cons hu hus => rw [List.forall₂_cons, hR _ _ _ _ hv hu, ih hus, List.cons.injEq]

theorem sameItems_iff {key : String} {v u : Json}
    (h : ∃ vs, (v.member? key).getD (.array []) = .array vs ∧ List.Forall₂ means vs as)
    (k : ∃ us, (u.member? key).getD (.array []) = .array us ∧ List.Forall₂ means us bs)
    (hR : ∀ v u a b, means v a → means u b → (R v u ↔ a = b)) :
    SameItems key R v u ↔ as = bs := by
  obtain ⟨vs, hvs, has⟩ := h
  obtain ⟨us, hus, hbs⟩ := k
  rw [← forall₂_iff_eq hR has hbs]
  constructor
  · rintro ⟨ws, xs, hws, hxs, hall⟩
    obtain rfl := array.inj (hvs.symm.trans hws)
    obtain rfl := array.inj (hus.symm.trans hxs)
    exact hall
  · intro hall
    exact ⟨vs, us, hvs, hus, hall⟩

end

end Json

theorem Instruction.alike_iff {v u : Json} {i j : Instruction} (h : i.MeantBy v)
    (k : j.MeantBy u) : Alike v u ↔ i = j := by
  have hothers := h.rest.agreeBut_iff k.rest ["address"] (by decide)
  have haddress := nonNull?_iff natural_injective h.address k.address
  have hindex := field_iff index_injective (fun _ => rfl) h.index k.index
  have hsize := field_iff natural_injective (fun _ => rfl) h.size k.size
  constructor
  · intro halike
    obtain ⟨hextra, hfields⟩ := hothers.mp halike.others
    cases i
    cases j
    obtain rfl := hextra
    obtain rfl := hindex.mp (hfields "index" (by decide))
    obtain rfl := hsize.mp (hfields "size" (by decide))
    obtain rfl := haddress.mp halike.address
    rfl
  · rintro rfl
    refine ⟨hothers.mpr ⟨rfl, ?_⟩, haddress.mpr rfl⟩
    exact List.forall_mem_cons.mpr ⟨hindex.mpr rfl, List.forall_mem_singleton.mpr (hsize.mpr rfl)⟩

theorem Block.alike_iff {v u : Json} {b c : Block} (h : b.MeantBy v) (k : c.MeantBy u) :
    Alike v u ↔ b = c := by
  have hothers := h.rest.agreeBut_iff k.rest ["address", "instructions"] (by decide)
  have hname := field_iff Name.toJson_injective Name.canonical_toJson h.name k.name
  have haddress := nonNull?_iff natural_injective h.address k.address
  have hinstructions := sameItems_iff h.instructions k.instructions
    fun _ _ _ _ => Instruction.alike_iff
  constructor
  · intro halike
    obtain ⟨hextra, hfields⟩ := hothers.mp halike.others
    cases b
    cases c
    obtain rfl := hextra
    obtain rfl := hname.mp (hfields "name" (by decide))
    obtain rfl := haddress.mp halike.address
    obtain rfl := hinstructions.mp halike.instructions
    rfl
  · rintro rfl
    refine ⟨hothers.mpr ⟨rfl, ?_⟩, haddress.mpr rfl, hinstructions.mpr rfl⟩
    exact List.forall_mem_singleton.mpr (hname.mpr rfl)

theorem MachineFunction.alike_iff {v u : Json} {f g : MachineFunction} (h : f.MeantBy v)
    (k : g.MeantBy u) : Alike v u ↔ f = g := by
  have hothers := h.rest.agreeBut_iff k.rest ["mapsto", "blocks"] (by decide)
  have hname := field_iff Name.toJson_injective Name.canonical_toJson h.name k.name
  have hmapsto := nonNull?_iff string_injective h.mapsto k.mapsto
  have hblocks := sameItems_iff h.blocks k.blocks fun _ _ _ _ => Block.alike_iff
  constructor
  · intro halike
    obtain ⟨hextra, hfields⟩ := hothers.mp halike.others
    cases f
    cases g
    obtain rfl := hextra
    obtain rfl := hname.mp (hfields "name" (by decide))
    obtain rfl := hmapsto.mp halike.mapsto
    obtain rfl := hblocks.mp halike.blocks
    rfl
  · rintro rfl
    refine ⟨hothers.mpr ⟨rfl, ?_⟩, hmapsto.mpr rfl, hblocks.mpr rfl⟩
    exact List.forall_mem_singleton.mpr (hname.mpr rfl)

namespace Program

/-- Values are alike if they mean the same program. -/
theorem alike_iff {v u : Json} {p q : Program} (h : p.MeantBy v) (k : q.MeantBy u) :
    Alike v u ↔ p = q := by
  have hothers := h.rest.agreeBut_iff k.rest ["machine-functions"] (by decide)
  have hfunctions := sameItems_iff h.functions k.functions
    fun _ _ _ _ => MachineFunction.alike_iff
  constructor
  · intro halike
    obtain ⟨hextra, -⟩ := hothers.mp halike.others
    cases p
    cases q
    obtain rfl := hextra
    obtain rfl := hfunctions.mp halike.functions
    rfl
  · rintro rfl
    exact ⟨hothers.mpr ⟨rfl, List.forall_mem_nil _⟩, hfunctions.mpr rfl⟩

/-- Programs that come back from their printed forms are told apart by these. -/
theorem IsStorable.write_inj {p q : Program} (hp : p.IsStorable) (hq : q.IsStorable)
    (h : p.write = q.write) : p = q := by
  have hread : Except.ok p = Except.ok q := (read_write hp).symm.trans (h ▸ read_write hq)
  exact Except.ok.inj hread

/-- **Canonical output.** Two documents with alike values are the same text when they are placed by
one table and written. No more is lost than that: documents that are written the same were alike, if
the numbers without a meaning are integers of 64 bits. -/
theorem write_place_of_alike {text other : String} {p q : Program} (hp : read text = .ok p)
    (hq : read other = .ok q) :
    ∃ v u, Json.read text = .ok v ∧ Json.read other = .ok u ∧
      (Alike v u → ∀ t : SymbolTable, (p.place t).write = (q.place t).write) ∧
      (p.isIntegral → q.isIntegral → p.write = q.write → Alike v u) := by
  obtain ⟨v, hv, hmeans⟩ := exists_value_of_read hp
  obtain ⟨u, hu, hother⟩ := exists_value_of_read hq
  have halike : Alike v u ↔ p = q :=
    alike_iff (meantBy_of_ofJson? hmeans) (meantBy_of_ofJson? hother)
  refine ⟨v, u, hv, hu, ?_, ?_⟩
  · intro h t
    rw [halike.mp h]
  · intro hp' hq' hwrite
    have hstorable := isStorable_of_read hp hp'
    exact halike.mpr (hstorable.write_inj (isStorable_of_read hq hq') hwrite)

/-- Members in another order, also inside what is carried along, an escape, blanks, and a symbol, an
address and two arrays that are null, empty or left out. -/
theorem write_place_of_alike_of_other_spelling :
    let text := "\x7b\"machine-functions\":[\x7b\"name\":1,\"mapsto\":null,\"blocks\":[
\x7b\"name\":0,\"address\":null\x7d]\x7d],\"x\":\x7b\"a\":1,\"b\":2\x7d\x7d"
    let other := "\x7b\"x\": \x7b\"b\": 2, \"\\u0061\": 1\x7d,
\"machine-functions\": [\x7b\"blocks\": [\x7b\"instructions\": [], \"name\": 0\x7d], \"name\": 1\x7d]\x7d\n"
    let v : Json := .object [("machine-functions", .array [.object [("name", .natural 1),
      ("mapsto", .null), ("blocks", .array [.object [("name", .natural 0), ("address", .null)]])]]),
      ("x", .object [("a", .natural 1), ("b", .natural 2)])]
    let u : Json := .object [("x", .object [("b", .natural 2), ("a", .natural 1)]),
      ("machine-functions", .array [.object [("blocks", .array [.object [
        ("instructions", .array []), ("name", .natural 0)]]), ("name", .natural 1)]])]
    ∃ p q, read text = .ok p ∧ read other = .ok q ∧ Json.read text = .ok v ∧
      Json.read other = .ok u ∧ Alike v u ∧
        ∀ t : SymbolTable, (p.place t).write = (q.place t).write := by
  intro text other v u
  let p : Program := ⟨[⟨.number 1, none, [⟨.number 0, none, [], .empty⟩], .empty⟩],
    Dict.ofList [("x", .object [("a", .natural 1), ("b", .natural 2)])]⟩
  have hp : read text = .ok p := ok_of_toOption_eq_some (by decide +kernel)
  have hq : read other = .ok p := ok_of_toOption_eq_some (by decide +kernel)
  have hv : Json.read text = .ok v := ok_of_toOption_eq_some (by decide +kernel)
  have hu : Json.read other = .ok u := ok_of_toOption_eq_some (by decide +kernel)
  have halike : Alike v u := by
    refine ⟨agreeBut_of_perm (by decide) (by decide), _, _, rfl, rfl, .cons ?_ .nil⟩
    refine ⟨agreeBut_of_perm (by decide) (by decide), rfl, _, _, rfl, rfl, .cons ?_ .nil⟩
    exact ⟨agreeBut_of_perm (by decide) (by decide), rfl, _, _, rfl, rfl, .nil⟩
  obtain ⟨v', u', hv', hu', hwrite, -⟩ := write_place_of_alike hp hq
  obtain rfl := Except.ok.inj (hv.symm.trans hv')
  obtain rfl := Except.ok.inj (hu.symm.trans hu')
  exact ⟨p, p, hp, hq, hv, hu, halike, hwrite halike⟩

end Program

end CodeMap
