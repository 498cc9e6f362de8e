import CodeMap.Json.Reader.Bracket
import CodeMap.Proofs.Json.Tokens

/-! # Values read back

`Reader.Reads` says that a reader takes the printed form of a value for what it means, in either
style, at any depth and behind any blanks. The law is passed on from the inside of brackets to the
outside: from elements to arrays (`Reader.reads_list`) and from members to objects (`Fills`). Any
value comes back from its printed form, if it has no more brackets than the reader has levels and
no number that is not an integer (`Reader.reads_value`).
-/

namespace CodeMap.Json

variable {α β σ : Type}

/-! ## Shapes of values -/

/-- The value is a number, but no integer of 64 bits. -/
def isReal : Json → Bool
  | .number n => !n.isIntegral
  | .null | .bool _ | .string _ | .array _ | .object _ => false

mutual

/-- Every number in the value is an integer of 64 bits. -/
def isIntegral : Json → Bool
  | .number n => n.isIntegral
  | .array items => allIntegral items
  | .object members => membersIntegral members
  | .null | .bool _ | .string _ => true

def allIntegral : List Json → Bool
  | [] => true
  | v :: rest => v.isIntegral && allIntegral rest

def membersIntegral : List (String × Json) → Bool
  | [] => true
  | (_, v) :: rest => v.isIntegral && membersIntegral rest

end

/-- The value has brackets to at most so many levels. -/
def fits : Nat → Json → Bool
  | 0, .array _ | 0, .object _ => false
  | n + 1, .array items => items.all (fits n)
  | n + 1, .object members => members.all fun m => fits n m.2
  | _, .null | _, .bool _ | _, .number _ | _, .string _ => true

theorem isIntegral_array {items : List Json} :
    (Json.array items).isIntegral ↔ ∀ v ∈ items, v.isIntegral := by
  rw [isIntegral]
  induction items with
  | nil => simp [allIntegral]
  | cons v rest ih => simp [allIntegral, ih]

theorem isIntegral_object {members : List (String × Json)} :
    (Json.object members).isIntegral ↔ ∀ m ∈ members, m.2.isIntegral := by
  rw [isIntegral]
  induction members with
  | nil => simp [membersIntegral]
  | cons m rest ih => simp [membersIntegral, ih]

theorem isReal_of_isIntegral {v : Json} (h : v.isIntegral) : v.isReal = false := by
  cases v with
  | number n =>
    rw [isIntegral] at h
    rw [isReal, h, Bool.not_true]
  | null | bool | string | array | object => rfl

/-- A printed value does not begin with a blank or a closing bracket, and only null begins with
its letter. -/
theorem render_eq_cons {v : Json} (h : v.isReal = false) (style : Style) (depth : Nat) :
    ∃ c text, v.render style depth = c :: text ∧ isSpace c = false ∧ c ≠ ']' ∧
      (c = 'n' → v = .null) := by
  cases v with
  | null => exact ⟨'n', _, rfl, by decide, by decide, fun _ => rfl⟩
  | bool b => cases b <;> exact ⟨_, _, rfl, by decide, by decide, by decide⟩
  | string s => exact ⟨'"', _, rfl, by decide, by decide, fun h => absurd h (by decide)⟩
  | array items =>
    cases items <;> exact ⟨'[', _, rfl, by decide, by decide, fun h => absurd h (by decide)⟩
  | object members =>
    cases members <;>
      exact ⟨'\x7b', _, rfl, by decide, by decide, fun h => absurd h (by decide)⟩
  | number n =>
    have hn : n.isIntegral := by simpa [isReal] using h
    obtain ⟨c, text, hc, hfirst⟩ := Number.render_eq_cons hn
    have hne : ∀ d : Char, (d = '-' ∨ d.isDigit) = False → c ≠ d := by
      rintro d hd rfl
      exact hd ▸ hfirst
    refine ⟨c, text, hc, ?_, hne _ (by decide), fun hn => absurd hn (hne _ (by decide))⟩
    simp [isSpace, hne ' ' (by decide), hne '\n' (by decide), hne '\t' (by decide),
      hne '\r' (by decide)]

/-! ## The law of a reader -/

/-- A whole text is read if the reader leaves nothing but blanks. -/
theorem Reader.readAll_eq_ok {r : Reader α} {text : String} {a : α} :
    r.readAll text = .ok a ↔ ∃ rest, r.run text.toList = .ok (a, rest) ∧ skipBlanks rest = [] := by
  rw [readAll]
  constructor
  · intro h
    cases hrun : r.run text.toList with
    | error fault =>
      rw [hrun] at h
      cases h
    | ok p =>
      obtain ⟨b, rest⟩ := p
      simp only [hrun] at h
      split at h
      · next hrest =>
        cases h
        exact ⟨rest, rfl, hrest⟩
      · cases h
  · rintro ⟨rest, hrun, hrest⟩
    simp only [hrun, hrest]

theorem skipBlanks_cons {c : Char} (hc : isSpace c = false) (s : List Char) :
    skipBlanks (c :: s) = c :: s := by
  rw [skipBlanks, List.dropWhile_cons_of_neg (by simp [hc])]

/-- Blanks before a text that begins with none are skipped. -/
theorem skipBlanks_append {blanks : List Char} (hb : ∀ c ∈ blanks, isSpace c) {c : Char}
    (hc : isSpace c = false) (s : List Char) : skipBlanks (blanks ++ c :: s) = c :: s := by
  rw [skipBlanks, List.dropWhile_append_of_pos hb]
  exact skipBlanks_cons hc s

theorem isSpace_lineBreak (style : Style) (depth : Nat) :
    ∀ c ∈ style.lineBreak depth, isSpace c := by
  cases style with
  | compact => exact nofun
  | indented =>
    rintro c hc
    rcases List.mem_cons.mp hc with rfl | hc
    · decide
    · obtain rfl := List.eq_of_mem_replicate hc
      decide

/-- No number goes on with a line break and what may stand behind one. -/
theorem endsNumber_lineBreak (style : Style) (depth : Nat) {c : Char} {rest : List Char}
    (h : c.isDigit = false ∧ c ≠ '.' ∧ c ≠ 'e' ∧ c ≠ 'E') :
    EndsNumber (style.lineBreak depth ++ c :: rest) := by
  cases style with
  | compact => exact endsNumber_cons h
  | indented => exact endsNumber_cons (by decide)

/-- The reader takes the printed form of `v` for `a`, and stops right behind it. -/
structure Reader.Reads (r : Reader α) (v : Json) (a : α) : Prop where
  isReal_eq : v.isReal = false
  run_eq : ∀ (style : Style) (depth : Nat) (blanks rest : List Char),
    (∀ c ∈ blanks, isSpace c) → EndsNumber rest →
      r.run (blanks ++ (v.render style depth ++ rest)) = .ok (a, rest)

namespace Reader

/-- The reader takes a whole text for what its value means. -/
theorem Reads.readAll_append {r : Reader α} {v : Json} {a : α} (h : r.Reads v a) {tail : String}
    (htail : skipBlanks tail.toList = []) (hends : EndsNumber tail.toList) :
    r.readAll (v.pretty ++ tail) = .ok a := by
  refine readAll_eq_ok.mpr ⟨tail.toList, ?_, htail⟩
  rw [pretty, String.toList_append, String.toList_ofList]
  exact h.run_eq .indented 0 [] _ nofun hends

theorem Reads.readAll_pretty {r : Reader α} {v : Json} {a : α} (h : r.Reads v a) :
    r.readAll v.pretty = .ok a := by
  have hread : r.readAll (v.pretty ++ "") = .ok a := h.readAll_append rfl endsNumber_nil
  rwa [String.append_empty] at hread

theorem Reads.map {r : Reader α} {v : Json} {a : α} (h : r.Reads v a) (f : α → β) :
    (r.map f).Reads v (f a) where
  isReal_eq := h.isReal_eq
  run_eq style depth blanks rest hb hr := by
    rw [run_map, h.run_eq style depth blanks rest hb hr]

/-- A scalar that is accepted is read from its printed form. -/
theorem reads_scalar {wanted : Wanted} {accept : Scalar → Option (Except Cause α)} {v : Scalar}
    {a : α} (hv : v.isIntegral) (ha : accept v = some (.ok a)) :
    (scalar wanted accept).Reads v.toJson a where
  isReal_eq := isReal_of_isIntegral (by cases v <;> exact hv)
  run_eq style depth blanks rest hb hr := by
    have hreal : v.toJson.isReal = false := isReal_of_isIntegral (by cases v <;> exact hv)
    obtain ⟨c, text, hc, hspace, -⟩ := render_eq_cons hreal style depth
    have hread := scalar?_render hv style depth hr
    show runScalar wanted accept _ = _
    rw [hc, List.cons_append] at hread ⊢
    rw [runScalar, skipBlanks_append hb hspace, hread]
    simp only [ha]

theorem reads_string (s : String) : string.Reads (.string s) s :=
  reads_scalar (v := .string s) rfl rfl

theorem reads_natural {width : Width} {n : UInt64} (h : n.toNat ≤ width.greatest) :
    (natural width).Reads (.natural n) n.toNat :=
  reads_scalar (v := .number (.natural n)) rfl (congrArg some (if_pos h))

theorem reads_word64 (n : UInt64) : word64.Reads (.natural n) n := by
  have hle : n.toNat ≤ Width.greatest .word64 := Nat.le_of_lt_succ n.toNat_lt
  have h := (reads_natural hle).map UInt64.ofNat
  rwa [UInt64.ofNat_toNat] at h

theorem reads_word32 (n : UInt32) : word32.Reads (.natural n.toUInt64) n := by
  have hle : n.toUInt64.toNat ≤ Width.greatest .word32 := by
    rw [UInt32.toNat_toUInt64]
    exact Nat.le_of_lt_succ n.toNat_lt
  have h := (reads_natural hle).map UInt32.ofNat
  rwa [UInt32.toNat_toUInt64, UInt32.ofNat_toNat] at h

/-- A value that may be left out is read if it is there. -/
theorem Reads.nullable {r : Reader α} {v : Json} {a : α} (h : r.Reads v a) (hv : v ≠ .null) :
    r.nullable.Reads v (some a) where
  isReal_eq := h.isReal_eq
  run_eq style depth blanks rest hb hr := by
    obtain ⟨c, text, hc, hspace, -, hnull⟩ := render_eq_cons h.isReal_eq style depth
    have hread := h.run_eq style depth [] rest nofun hr
    rw [List.nil_append, hc, List.cons_append] at hread
    rw [hc, List.cons_append]
    dsimp only [Reader.nullable]
    rw [skipBlanks_append hb hspace]
    split
    · next he => exact absurd (hnull (List.cons.inj he).1) hv
    · rw [hread]
      rfl

end Reader

/-! ## Arrays -/

theorem itemTurn_close (first : Bool) {blanks : List Char} (hb : ∀ c ∈ blanks, isSpace c)
    (rest : List Char) : itemTurn first (blanks ++ ']' :: rest) = .ok (.close rest) := by
  rw [itemTurn, skipBlanks_append hb (by decide)]
  rfl

theorem itemTurn_first {blanks : List Char} (hb : ∀ c ∈ blanks, isSpace c) {c : Char}
    (hc : isSpace c = false) (hclose : c ≠ ']') (s : List Char) :
    itemTurn true (blanks ++ c :: s) = .ok (.next (c :: s)) := by
  rw [itemTurn, skipBlanks_append hb hc]
  split
  · next he => cases he
  · next he => exact absurd (List.cons.inj he).1 hclose
  · next he =>
    obtain ⟨rfl, rfl⟩ := List.cons.inj he
    exact if_pos rfl

theorem itemTurn_comma {blanks : List Char} (hb : ∀ c ∈ blanks, isSpace c) {c : Char}
    (hc : isSpace c = false) (hclose : c ≠ ']') (s : List Char) :
    itemTurn false (',' :: (blanks ++ c :: s)) = .ok (.next (c :: s)) := by
  have hcomma : skipBlanks (',' :: (blanks ++ c :: s)) = ',' :: (blanks ++ c :: s) :=
    skipBlanks_cons (by decide) _
  rw [itemTurn, hcomma]
  split
  · next he => cases he
  · next he => exact absurd (List.cons.inj he).1 (by decide)
  · next he =>
    obtain ⟨rfl, rfl⟩ := List.cons.inj he
    rw [if_neg Bool.false_ne_true, if_pos rfl, skipBlanks_append hb hc]
    split
    · next he => cases he
    · next he => exact absurd (List.cons.inj he).1 hclose
    · rfl

theorem items_close {item : Reader α} {first : Bool} {read : List α} {s rest : List Char}
    (ht : itemTurn first s = .ok (.close rest)) :
    items item first read s = .ok (read.reverse, rest) := by
  rw [items]
  split
  · next h => rw [ht] at h; cases h
  · next h =>
    rw [ht] at h
    cases h
    rfl
  · next h => rw [ht] at h; cases h

theorem items_next {item : Reader α} {first : Bool} {read : List α} {s t rest : List Char} {a : α}
    (ht : itemTurn first s = .ok (.next t)) (hr : item.run t = .ok (a, rest)) :
    items item first read s = items item false (a :: read) rest := by
  rw [items]
  split
  · next h => rw [ht] at h; cases h
  · next h => rw [ht] at h; cases h
  · next h =>
    rw [ht] at h
    cases h
    split
    · next h => rw [hr] at h; cases h
    · next h =>
      rw [hr] at h
      cases h
      rfl

/-- The elements behind the first are read, up to the closing bracket. -/
theorem items_renderItems {item : Reader α} {f : α → Json} (style : Style) (depth outer : Nat)
    (rest : List Char) (as : List α) (h : ∀ a ∈ as, item.Reads (f a) a) (read : List α) :
    EndsNumber (renderItems style depth (as.map f) ++ (style.lineBreak outer ++ ']' :: rest)) ∧
      items item false read
          (renderItems style depth (as.map f) ++ (style.lineBreak outer ++ ']' :: rest)) =
        .ok (read.reverse ++ as, rest) := by
  induction as generalizing read with
  | nil =>
    refine ⟨endsNumber_lineBreak style outer (by decide), ?_⟩
    rw [List.map_nil, renderItems, List.nil_append, List.append_nil]
    exact items_close (itemTurn_close false (isSpace_lineBreak style outer) rest)
  | cons a as ih =>
    obtain ⟨hends, hread⟩ := ih (fun b hb => h b (List.mem_cons_of_mem _ hb)) (a :: read)
    have ha := h a List.mem_cons_self
    obtain ⟨c, text, hc, hspace, hclose, -⟩ := render_eq_cons ha.isReal_eq style depth
    have hrun := ha.run_eq style depth [] _ nofun hends
    rw [List.nil_append, hc, List.cons_append] at hrun
    refine ⟨endsNumber_cons (by decide), ?_⟩
    simp only [List.map_cons, renderItems, List.cons_append, List.append_assoc, hc]
    rw [items_next (itemTurn_comma (isSpace_lineBreak style depth) hspace hclose _) hrun, hread,
      List.reverse_cons, List.append_assoc, List.singleton_append]

/-- The inside of an array is read, if every element is. -/
theorem runItems_render {item : Reader α} {f : α → Json} (as : List α)
    (h : ∀ a ∈ as, item.Reads (f a) a) (style : Style) (depth : Nat) :
    ∃ body, (Json.array (as.map f)).render style depth = '[' :: body ∧
      ∀ s rest, runItems (some item) s (body ++ rest) = .ok (as, rest) := by
  cases as with
  | nil =>
    refine ⟨[']'], rfl, fun s rest => settled_eq_ok.mpr ?_⟩
    exact items_close rfl
  | cons a as =>
    refine ⟨style.lineBreak (depth + 1) ++ render style (depth + 1) (f a) ++
      renderItems style (depth + 1) (as.map f) ++ style.lineBreak depth ++ [']'], rfl,
      fun s rest => settled_eq_ok.mpr ?_⟩
    obtain ⟨hends, hread⟩ := items_renderItems style (depth + 1) depth rest as
      (fun b hb => h b (List.mem_cons_of_mem _ hb)) [a]
    have ha := h a List.mem_cons_self
    obtain ⟨c, text, hc, hspace, hclose, -⟩ := render_eq_cons ha.isReal_eq style (depth + 1)
    have hrun := ha.run_eq style (depth + 1) [] _ nofun hends
    rw [List.nil_append, hc, List.cons_append] at hrun
    simp only [List.append_assoc, List.cons_append, List.nil_append, hc]
    rw [items_next (itemTurn_first (isSpace_lineBreak style (depth + 1)) hspace hclose _) hrun]
    exact hread

/-- An array is read from its printed form, if every element is. -/
theorem Reader.reads_list {levels : Nat} {item : Nat → Reader α} {f : α → Json} {as : List α}
    (h : ∀ a ∈ as, (item levels).Reads (f a) a) :
    (Reader.list (levels + 1) item).Reads (.array (as.map f)) as where
  isReal_eq := rfl
  run_eq style depth blanks rest hb _ := by
    obtain ⟨body, hbody, hrun⟩ := runItems_render as h style depth
    dsimp only [Reader.list]
    rw [hbody, List.cons_append, skipBlanks_append hb (by decide)]
    exact hrun _ rest

/-! ## Objects -/

theorem memberTurn_close (first : Bool) {blanks : List Char} (hb : ∀ c ∈ blanks, isSpace c)
    (rest : List Char) : memberTurn first (blanks ++ '\x7d' :: rest) = .ok (.close rest) := by
  rw [memberTurn, skipBlanks_append hb (by decide)]
  rfl

theorem memberTurn_first {blanks : List Char} (hb : ∀ c ∈ blanks, isSpace c) (s : List Char) :
    memberTurn true (blanks ++ '"' :: s) = .ok (.next s) := by
  rw [memberTurn, skipBlanks_append hb (by decide)]
  rfl

theorem memberTurn_comma {blanks : List Char} (hb : ∀ c ∈ blanks, isSpace c) (s : List Char) :
    memberTurn false (',' :: (blanks ++ '"' :: s)) = .ok (.next s) := by
  have hcomma : skipBlanks (',' :: (blanks ++ '"' :: s)) = ',' :: (blanks ++ '"' :: s) :=
    skipBlanks_cons (by decide) _
  rw [memberTurn, hcomma]
  split
  · next he => cases he
  · next he => exact absurd (List.cons.inj he).1 (by decide)
  · next he =>
    obtain ⟨rfl, rfl⟩ := List.cons.inj he
    rw [if_neg Bool.false_ne_true, if_pos rfl, skipBlanks_append hb (by decide)]
    rfl

/-- Behind the colon of a member there are blanks at most. -/
theorem colon_append (style : Style) :
    ∃ blanks, (∀ c ∈ blanks, isSpace c) ∧
      ∀ s, colon (style.colon ++ s) = .ok (blanks ++ s) := by
  cases style with
  | compact => exact ⟨[], nofun, fun s => rfl⟩
  | indented =>
    refine ⟨[' '], fun c hc => ?_, fun s => rfl⟩
    obtain rfl := List.mem_singleton.mp hc
    rfl

theorem members_close {member : σ → String → Except Cause (Reader σ)} {first : Bool} {state : σ}
    {s rest : List Char} (ht : memberTurn first s = .ok (.close rest)) :
    members member first state s = .ok (state, rest) := by
  rw [members]
  split
  · next h => rw [ht] at h; cases h
  · next h =>
    rw [ht] at h
    cases h
    rfl
  · next h => rw [ht] at h; cases h

theorem members_next {member : σ → String → Except Cause (Reader σ)} {first : Bool}
    {state next : σ} {key : String} {value : Reader σ} {s t u v rest : List Char}
    (ht : memberTurn first s = .ok (.next t)) (hk : stringBody [] t = .ok (key, u))
    (hm : member state key = .ok value) (hc : colon u = .ok v)
    (hv : value.run v = .ok (next, rest)) :
    members member first state s = members member false next rest := by
  rw [members]
  split
  · next h => rw [ht] at h; cases h
  · next h => rw [ht] at h; cases h
  · next h =>
    rw [ht] at h
    cases h
    split
    · next h => rw [hk] at h; cases h
    · next h =>
      rw [hk] at h
      cases h
      split
      · next h => rw [hm] at h; cases h
      · next h =>
        rw [hm] at h
        cases h
        split
        · next h => rw [hc] at h; cases h
        · next h =>
          rw [hc] at h
          cases h
          split
          · next h => rw [hv] at h; cases h
          · next h =>
            rw [hv] at h
            cases h
            rfl

/-- Members that are read one after another take one state to another. -/
inductive Fills (member : σ → String → Except Cause (Reader σ)) :
    σ → List (String × Json) → σ → Prop where
  | nil {state : σ} : Fills member state [] state
  | cons {state next final : σ} {key : String} {value : Reader σ} {v : Json}
    {rest : List (String × Json)} (hm : member state key = .ok value) (hv : value.Reads v next)
    (h : Fills member next rest final) : Fills member state ((key, v) :: rest) final

theorem Fills.append {member : σ → String → Except Cause (Reader σ)} {start next final : σ}
    {ms more : List (String × Json)} (h₁ : Fills member start ms next)
    (h₂ : Fills member next more final) : Fills member start (ms ++ more) final := by
  induction h₁ with
  | nil => exact h₂
  | cons hm hv _ ih => exact .cons hm hv (ih h₂)

/-- One member is read, from behind the quote of its key on. -/
theorem members_render {member : σ → String → Except Cause (Reader σ)} {first : Bool}
    {state next : σ} {key : String} {value : Reader σ} {v : Json} {style : Style} {depth : Nat}
    {s rest : List Char} (hm : member state key = .ok value) (hv : value.Reads v next)
    (hends : EndsNumber rest)
    (ht : memberTurn first s = .ok (.next (key.toList.flatMap escapeChar ++
      '"' :: (style.colon ++ (v.render style depth ++ rest))))) :
    members member first state s = members member false next rest := by
  obtain ⟨blanks, hb, hc⟩ := colon_append style
  exact members_next ht (stringBody_renderString key _) hm (hc _)
    (hv.run_eq style depth blanks rest hb hends)

/-- The members behind the first are read, up to the closing bracket. -/
theorem members_renderMembers {member : σ → String → Except Cause (Reader σ)} {state final : σ}
    {ms : List (String × Json)} (h : Fills member state ms final) (style : Style)
    (depth outer : Nat) (rest : List Char) :
    EndsNumber (renderMembers style depth ms ++ (style.lineBreak outer ++ '\x7d' :: rest)) ∧
      members member false state
          (renderMembers style depth ms ++ (style.lineBreak outer ++ '\x7d' :: rest)) =
        .ok (final, rest) := by
  induction h with
  | nil =>
    refine ⟨endsNumber_lineBreak style outer (by decide), ?_⟩
    rw [renderMembers, List.nil_append]
    exact members_close (memberTurn_close false (isSpace_lineBreak style outer) rest)
  | cons hm hv _ ih =>
    obtain ⟨hends, hread⟩ := ih
    refine ⟨endsNumber_cons (by decide), ?_⟩
    simp only [renderMembers, renderString, List.cons_append, List.append_assoc, List.nil_append]
    rw [members_render hm hv hends (memberTurn_comma (isSpace_lineBreak style depth) _), hread]

/-- The inside of an object is read, if its members are. -/
theorem runMembers_render {member : σ → String → Except Cause (Reader σ)} {start final : σ}
    {ms : List (String × Json)} (h : Fills member start ms final) (style : Style) (depth : Nat) :
    ∃ body, (Json.object ms).render style depth = '\x7b' :: body ∧
      ∀ s rest, runMembers (some member) start s (body ++ rest) = .ok (final, rest) := by
  cases h with
  | nil =>
    refine ⟨['\x7d'], rfl, fun s rest => settled_eq_ok.mpr ?_⟩
    exact members_close rfl
  | @cons _ next _ key value v rest hm hv h =>
    refine ⟨style.lineBreak (depth + 1) ++ renderString key ++ style.colon ++
      render style (depth + 1) v ++ renderMembers style (depth + 1) rest ++
      style.lineBreak depth ++ ['\x7d'], rfl, fun s behind => settled_eq_ok.mpr ?_⟩
    obtain ⟨hends, hread⟩ := members_renderMembers h style (depth + 1) depth behind
    simp only [renderString, List.cons_append, List.append_assoc, List.nil_append]
    rw [members_render hm hv hends (memberTurn_first (isSpace_lineBreak style (depth + 1)) _),
      hread]

/-! ## Values -/

/-- A scalar is read as a value, whatever reads the inside of brackets. -/
theorem runValue_scalar (inner : Option (Reader Json)) {v : Scalar} (hv : v.isIntegral)
    (style : Style) (depth : Nat) {blanks rest : List Char} (hb : ∀ c ∈ blanks, isSpace c)
    (hr : EndsNumber rest) :
    runValue inner (blanks ++ (v.toJson.render style depth ++ rest)) = .ok (v.toJson, rest) := by
  have hreal : v.toJson.isReal = false := isReal_of_isIntegral (by cases v <;> exact hv)
  obtain ⟨c, text, hc, hspace, -⟩ := render_eq_cons hreal style depth
  have hread := scalar?_render hv style depth hr
  rw [hc, List.cons_append] at hread ⊢
  rw [runValue, skipBlanks_append hb hspace]
  split
  · next he => cases he
  · next he =>
    rw [he] at hread
    cases hread
  · next he =>
    rw [he] at hread
    cases hread
  · rw [hread]

theorem exists_scalar {v : Json} (h : v.fits 0) : ∃ s : Scalar, s.toJson = v := by
  cases v with
  | null => exact ⟨.null, rfl⟩
  | bool b => exact ⟨.bool b, rfl⟩
  | number n => exact ⟨.number n, rfl⟩
  | string s => exact ⟨.string s, rfl⟩
  | array | object => cases h

theorem Reader.reads_value_scalar (levels : Nat) {v : Json} (h : v.fits 0) (hi : v.isIntegral) :
    (Reader.value levels).Reads v v := by
  refine ⟨isReal_of_isIntegral hi, fun style depth blanks rest hb hr => ?_⟩
  obtain ⟨s, rfl⟩ := exists_scalar h
  have hs : s.isIntegral := by cases s <;> exact hi
  cases levels <;> exact runValue_scalar _ hs style depth hb hr

/-- The members of an object are gathered, latest first. -/
theorem fills_members {r : Reader Json} {ms : List (String × Json)}
    (h : ∀ m ∈ ms, r.Reads m.2 m.2) (read : List (String × Json)) :
    Fills (fun (read : List (String × Json)) key => .ok (r.map fun v => (key, v) :: read)) read ms
      (ms.reverse ++ read) := by
  induction ms generalizing read with
  | nil => exact .nil
  | cons m ms ih =>
    have hm := (h m List.mem_cons_self).map fun v => (m.1, v) :: read
    rw [List.reverse_cons, List.append_assoc, List.singleton_append]
    exact .cons rfl hm (ih (fun k hk => h k (List.mem_cons_of_mem _ hk)) _)

/-- A value is read from its printed form, if the levels suffice and its numbers are integers. -/
theorem Reader.reads_value {levels : Nat} {v : Json} (hf : v.fits levels) (hi : v.isIntegral) :
    (Reader.value levels).Reads v v := by
  induction levels generalizing v with
  | zero => exact reads_value_scalar 0 hf hi
  | succ levels ih =>
    cases v with
    | array items =>
      have hitems : ∀ v ∈ items, (Reader.value levels).Reads (id v) v := fun v hv =>
        ih (List.all_eq_true.mp hf v hv) (isIntegral_array.mp hi v hv)
      refine ⟨rfl, fun style depth blanks rest hb _ => ?_⟩
      obtain ⟨body, hbody, hrun⟩ := runItems_render items hitems style depth
      rw [List.map_id] at hbody
      show runValue (some (value levels)) _ = _
      rw [hbody, List.cons_append, runValue, skipBlanks_append hb (by decide)]
      simp only [hrun]
      rfl
    | object members =>
      have hmembers : ∀ m ∈ members, (Reader.value levels).Reads m.2 m.2 := fun m hm =>
        ih (List.all_eq_true.mp hf m hm) (isIntegral_object.mp hi m hm)
      refine ⟨rfl, fun style depth blanks rest hb _ => ?_⟩
      obtain ⟨body, hbody, hrun⟩ := runMembers_render (fills_members hmembers []) style depth
      show runValue (some (value levels)) _ = _
      rw [hbody, List.cons_append, runValue, skipBlanks_append hb (by decide)]
      simp only [Option.map_some, hrun, List.append_nil]
      show Except.ok (Json.object members.reverse.reverse, rest) = _
      rw [List.reverse_reverse]
    | null | bool | string | number => exact reads_value_scalar _ rfl hi

end CodeMap.Json
