import Accession.Json
import Mathlib.Algebra.Ring.Nat
import Mathlib.Data.List.Forall2
set_option autoImplicit false

/-!
# Written JSON values

A value is read off its written form, whatever its texts hold and whatever follows it. Quotes,
backslashes and control characters have escapes inside a text, so the quote that ends it is the
first one without a backslash, and a comma, a colon or a bracket is read as a mark only where the
printer has put one. For the same reason the only control characters of a written form are the line
breaks that its lists and records put between their parts.

## Main definitions

* `Json.Reads` — a value is read off its written form.
* `Json.HasBreaks` — the control characters of a written form are so many line breaks.

## Main results

* `Json.readText_flatMap_escape` — a text is read off its written form.
* `Json.reads` — and so is every value.
* `Json.parse_ofList_renderAt_append` — a value with blanks behind it is the value of the whole
  text.
* `Json.hasBreaks_string`, `Json.hasBreaks_list`, `Json.hasBreaks_record` — the line breaks of a
  value are those around its parts, and those inside them.
-/

namespace Accession.Json

/-- Induction over a value: from the items of a list, and the values of a record, to the whole. -/
theorem induction_on {motive : Json → Prop} (value : Json)
    (string : ∀ text, motive (.string text))
    (list : ∀ items : List Json, (∀ item ∈ items, motive item) → motive (.list items))
    (record : ∀ fields : List (String × Json),
      (∀ field ∈ fields, motive field.2) → motive (.record fields)) : motive value :=
  match value with
  | .string text => string text
  | .list items => list items fun item _ => induction_on item string list record
  | .record fields => record fields fun field _ => induction_on field.2 string list record
  termination_by value
  decreasing_by
    · rename_i hitem
      have hlt := List.sizeOf_lt_of_mem hitem
      simp only [Json.list.sizeOf_spec]
      omega
    · rename_i hfield
      have hlt := List.sizeOf_lt_of_mem hfield
      obtain ⟨key, inner⟩ := field
      simp only [Prod.mk.sizeOf_spec] at hlt
      simp only [Json.record.sizeOf_spec]
      omega

/-! ### Texts -/

/-- The code of a control character, as four digits. -/
theorem value?_controlCode {n : Nat} (h : n < 0x20) :
    Numeral.value? 16 ['0', '0', Numeral.digitChar (n / 16), Numeral.digitChar (n % 16)] =
      some n := by
  revert n
  decide

/-- Reading the written form of a character gives that character. -/
theorem readText_escape (done : List Char) (c : Char) (rest : List Char) :
    readText done (escape c ++ rest) = readText (c :: done) rest := by
  unfold escape
  split_ifs with hquote hbackslash hbackspace hfeed hbreak hreturn htab hcontrol
  · subst hquote; rfl
  · subst hbackslash; rfl
  · subst hbackspace; rfl
  · subst hfeed; rfl
  · subst hbreak; rfl
  · subst hreturn; rfl
  · subst htab; rfl
  · have hvalid : c.toNat.isValidChar := .inl (by omega)
    simp only [List.cons_append, List.nil_append, readText, value?_controlCode hcontrol,
      Option.bind_eq_bind, Option.bind_some, if_pos hvalid, Char.ofNat_toNat]
  · rw [List.singleton_append]
    simp [readText, hbackslash, hcontrol]

/-- **A text is read off its written form.** -/
theorem readText_flatMap_escape (done text rest : List Char) :
    readText done (text.flatMap escape ++ '"' :: rest) =
      some (String.ofList (done.reverse ++ text), rest) := by
  induction text generalizing done with
  | nil => simp [readText]
  | cons c text ih =>
    rw [List.flatMap_cons, List.append_assoc, readText_escape, ih, List.reverse_cons,
      List.append_assoc, List.singleton_append]

/-- After its opening quote, a text is read up to the closing one. -/
theorem readText_toList (text : String) (rest : List Char) :
    readText [] (text.toList.flatMap escape ++ '"' :: rest) = some (text, rest) := by
  rw [readText_flatMap_escape, List.reverse_nil, List.nil_append, String.ofList_toList]

/-! ### Blanks -/

/-- Blanks in front are skipped. -/
theorem skip_append {blanks : List Char} (h : ∀ c ∈ blanks, isBlank c = true)
    (text : List Char) : skip (blanks ++ text) = skip text :=
  List.dropWhile_append_of_pos h

/-- A line break and its indentation are blank. -/
theorem isBlank_of_mem_newline {width depth : Nat} {c : Char} (h : c ∈ newline width depth) :
    isBlank c = true := by
  rcases List.mem_cons.1 h with rfl | h
  · rfl
  · rw [List.eq_of_mem_replicate h]
    rfl

/-- Nothing is skipped in front of a character that is not blank. -/
theorem skip_cons {c : Char} (h : isBlank c = false) (text : List Char) :
    skip (c :: text) = c :: text :=
  List.dropWhile_cons_of_neg (by simp [h])

/-- The layout in front of a value is skipped. -/
theorem skip_newline_cons {c : Char} (h : isBlank c = false) (width depth : Nat)
    (text : List Char) : skip (newline width depth ++ c :: text) = c :: text := by
  rw [skip_append fun _ => isBlank_of_mem_newline, skip_cons h]

/-- A value is read alike with blanks in front of it. -/
theorem readValue_append {blanks : List Char} (h : ∀ c ∈ blanks, isBlank c = true) (fuel : Nat)
    (text : List Char) : readValue fuel (blanks ++ text) = readValue fuel text := by
  cases fuel with
  | zero => rfl
  | succ fuel => rw [readValue, readValue, skip_append h]

/-- The items of a list are read alike with blanks in front of them. -/
theorem readItems_append {blanks : List Char} (h : ∀ c ∈ blanks, isBlank c = true) (fuel : Nat)
    (text : List Char) : readItems fuel (blanks ++ text) = readItems fuel text := by
  cases fuel with
  | zero => rfl
  | succ fuel => rw [readItems, readItems, readValue_append h]

/-- The fields of a record are read alike with blanks in front of them. -/
theorem readFields_append {blanks : List Char} (h : ∀ c ∈ blanks, isBlank c = true) (fuel : Nat)
    (text : List Char) : readFields fuel (blanks ++ text) = readFields fuel text := by
  cases fuel with
  | zero => rfl
  | succ fuel => rw [readFields, readFields, skip_append h]

/-! ### Values -/

/-- A value is read off its written form, whatever follows it. -/
def Reads (width : Nat) (value : Json) : Prop :=
  ∀ fuel depth rest, (renderAt width depth value).length ≤ fuel →
    readValue fuel (renderAt width depth value ++ rest) = some (value, rest)

/-- A value begins with a quote or an opening bracket. -/
theorem exists_renderAt (width depth : Nat) (value : Json) :
    ∃ c tail, renderAt width depth value = c :: tail ∧ isBlank c = false ∧ c ≠ ']' := by
  cases value with
  | string text => exact ⟨'"', _, by rw [renderAt, renderText]; rfl, rfl, by decide⟩
  | list items =>
    cases items with
    | nil => exact ⟨'[', _, by rw [renderAt], rfl, by decide⟩
    | cons item items => exact ⟨'[', _, by rw [renderAt]; rfl, rfl, by decide⟩
  | record fields =>
    cases fields with
    | nil => exact ⟨'\x7b', _, by rw [renderAt], rfl, by decide⟩
    | cons field fields => exact ⟨'\x7b', _, by rw [renderAt]; rfl, rfl, by decide⟩

section Parts

variable {width : Nat}

/-- A list that is not empty is read off its items.

**Proof sketch.** Induction on the further items. Behind an item comes a comma, and then blanks and
the next item, or else blanks and the closing bracket. -/
theorem readItems_renderAt {item : Json} {items : List Json}
    (h : ∀ i ∈ item :: items, Reads width i) {fuel : Nat} (depth outer : Nat) (rest : List Char)
    (hfuel : (renderAt width depth item).length + (renderItems width depth items).length < fuel) :
    readItems fuel (renderAt width depth item ++ (renderItems width depth items ++
      (newline width outer ++ ']' :: rest))) = some (item :: items, rest) := by
  induction items generalizing item fuel with
  | nil =>
    obtain ⟨fuel, rfl⟩ := Nat.exists_eq_add_one_of_ne_zero (Nat.ne_zero_of_lt hfuel)
    have hitem := h item List.mem_cons_self fuel depth (newline width outer ++ ']' :: rest)
      (by omega)
    have hend : skip (newline width outer ++ ']' :: rest) = ']' :: rest :=
      skip_newline_cons rfl _ _ _
    rw [renderItems, List.nil_append, readItems, hitem]
    simp only [Option.bind_eq_bind, Option.bind_some, hend]
    rfl
  | cons next items ih =>
    obtain ⟨fuel, rfl⟩ := Nat.exists_eq_add_one_of_ne_zero (Nat.ne_zero_of_lt hfuel)
    rw [renderItems] at hfuel ⊢
    simp only [List.cons_append, List.append_assoc, List.length_cons, List.length_append]
      at hfuel ⊢
    have hitem := h item List.mem_cons_self fuel depth (',' :: (newline width depth ++
      (renderAt width depth next ++ (renderItems width depth items ++
        (newline width outer ++ ']' :: rest))))) (by omega)
    have hnext : (renderAt width depth next).length + (renderItems width depth items).length <
        fuel := by omega
    have hrest := ih (fun i hi => h i (List.mem_cons_of_mem _ hi)) hnext
    rw [readItems, hitem]
    simp only [Option.bind_eq_bind, Option.bind_some]
    rw [skip_cons (by decide)]
    simp only [readItems_append fun _ => isBlank_of_mem_newline, hrest]
    rfl

/-- Once its value is read, what follows a field decides whether there are more. -/
theorem readFields_renderText (key : String) {value : Json} {fuel : Nat} {after rest : List Char}
    (h : readValue fuel after = some (value, rest)) :
    readFields (fuel + 1) (renderText key ++ ':' :: ' ' :: after) =
      match skip rest with
      | ',' :: rest => do
        let (fields, rest) ← readFields fuel rest
        return ((key, value) :: fields, rest)
      | '\x7d' :: rest => return ([(key, value)], rest)
      | _ => none := by
  have hkey : renderText key ++ ':' :: ' ' :: after =
      '"' :: (key.toList.flatMap escape ++ '"' :: ':' :: ' ' :: after) := by
    rw [renderText, List.cons_append, List.cons_append, List.append_assoc, List.singleton_append]
  have hblank : readValue fuel (' ' :: after) = some (value, rest) :=
    (readValue_append (List.forall_mem_singleton.2 rfl) fuel after).trans h
  rw [hkey, readFields, skip_cons (by decide)]
  simp only [readText_toList, Option.bind_eq_bind, Option.bind_some]
  rw [skip_cons (by decide)]
  simp only [hblank]
  rfl

/-- A record that is not empty is read off its fields. -/
theorem readFields_renderFields {key : String} {value : Json} {fields : List (String × Json)}
    (h : ∀ field ∈ (key, value) :: fields, Reads width field.2) {fuel : Nat} (depth outer : Nat)
    (rest : List Char)
    (hfuel : (renderText key).length + (renderAt width depth value).length +
      (renderFields width depth fields).length < fuel) :
    readFields fuel (renderText key ++ ':' :: ' ' :: (renderAt width depth value ++
      (renderFields width depth fields ++ (newline width outer ++ '\x7d' :: rest)))) =
        some ((key, value) :: fields, rest) := by
  induction fields generalizing key value fuel with
  | nil =>
    obtain ⟨fuel, rfl⟩ := Nat.exists_eq_add_one_of_ne_zero (Nat.ne_zero_of_lt hfuel)
    have hvalue := h (key, value) List.mem_cons_self fuel depth
      (newline width outer ++ '\x7d' :: rest) (by simp only; omega)
    have hend : skip (newline width outer ++ '\x7d' :: rest) = '\x7d' :: rest :=
      skip_newline_cons rfl _ _ _
    rw [renderFields, List.nil_append, readFields_renderText key hvalue, hend]
    rfl
  | cons field fields ih =>
    obtain ⟨next, inner⟩ := field
    obtain ⟨fuel, rfl⟩ := Nat.exists_eq_add_one_of_ne_zero (Nat.ne_zero_of_lt hfuel)
    rw [renderFields] at hfuel ⊢
    simp only [List.cons_append, List.append_assoc, List.nil_append, List.length_cons,
      List.length_append] at hfuel ⊢
    have hvalue := h (key, value) List.mem_cons_self fuel depth (',' :: (newline width depth ++
      (renderText next ++ ':' :: ' ' :: (renderAt width depth inner ++
        (renderFields width depth fields ++ (newline width outer ++ '\x7d' :: rest))))))
      (by simp only; omega)
    have hnext : (renderText next).length + (renderAt width depth inner).length +
        (renderFields width depth fields).length < fuel := by omega
    have hrest := ih (fun field hfield => h field (List.mem_cons_of_mem _ hfield)) hnext
    rw [readFields_renderText key hvalue, skip_cons (by decide)]
    simp only [readFields_append fun _ => isBlank_of_mem_newline, hrest, Option.bind_eq_bind,
      Option.bind_some]
    rfl

/-- A list that begins with something else than its closing bracket is read off its items. -/
theorem readValue_list {fuel : Nat} {c : Char} {tail rest : List Char} {items : List Json}
    (hblank : isBlank c = false) (hne : c ≠ ']')
    (h : readItems fuel (c :: tail) = some (items, rest)) (depth : Nat) :
    readValue (fuel + 1) ('[' :: (newline width depth ++ c :: tail)) =
      some (.list items, rest) := by
  have hskip := skip_newline_cons hblank width depth tail
  rw [readValue, skip_cons (by decide)]
  simp only [hskip]
  split
  · rename_i heq
    exact absurd (List.cons.inj heq).1 hne
  · rw [h]
    rfl

/-- A record that begins with a key is read off its fields. -/
theorem readValue_record {fuel : Nat} {tail rest : List Char} {fields : List (String × Json)}
    (h : readFields fuel ('"' :: tail) = some (fields, rest)) (depth : Nat) :
    readValue (fuel + 1) ('\x7b' :: (newline width depth ++ '"' :: tail)) =
      some (.record fields, rest) := by
  have hskip : skip (newline width depth ++ '"' :: tail) = '"' :: tail :=
    skip_newline_cons rfl _ _ _
  rw [readValue, skip_cons (by decide)]
  simp only [hskip]
  exact congrArg (Option.map fun (fields, rest) => (Json.record fields, rest)) h

/-- **Every value is read off its written form.**

**Proof sketch.** Induction over the value. The written form of a value is longer than those of its
items or fields together, so the steps that its length allows suffice for them. -/
theorem reads (width : Nat) (value : Json) : Reads width value := by
  induction value using induction_on with
  | string text =>
    intro fuel depth rest hfuel
    rw [renderAt, renderText] at hfuel ⊢
    obtain ⟨fuel, rfl⟩ := Nat.exists_eq_add_one_of_ne_zero (Nat.ne_zero_of_lt hfuel)
    rw [List.cons_append, List.cons_append, List.append_assoc, List.singleton_append, readValue,
      skip_cons (by decide)]
    simp only [readText_toList, Option.map_some]
  | list items h =>
    intro fuel depth rest hfuel
    cases items with
    | nil =>
      rw [renderAt] at hfuel ⊢
      obtain ⟨fuel, rfl⟩ := Nat.exists_eq_add_one_of_ne_zero (Nat.ne_zero_of_lt hfuel)
      rfl
    | cons item items =>
      rw [renderAt] at hfuel ⊢
      simp only [List.cons_append, List.append_assoc, List.nil_append, List.length_cons,
        List.length_append] at hfuel ⊢
      obtain ⟨fuel, rfl⟩ := Nat.exists_eq_add_one_of_ne_zero (Nat.ne_zero_of_lt hfuel)
      have hitems := readItems_renderAt h (depth + 1) depth rest
        (show (renderAt width (depth + 1) item).length +
          (renderItems width (depth + 1) items).length < fuel by omega)
      obtain ⟨c, tail, hc, hblank, hne⟩ := exists_renderAt width (depth + 1) item
      rw [hc, List.cons_append] at hitems ⊢
      exact readValue_list hblank hne hitems (depth + 1)
  | record fields h =>
    intro fuel depth rest hfuel
    cases fields with
    | nil =>
      rw [renderAt] at hfuel ⊢
      obtain ⟨fuel, rfl⟩ := Nat.exists_eq_add_one_of_ne_zero (Nat.ne_zero_of_lt hfuel)
      rfl
    | cons field fields =>
      obtain ⟨key, value⟩ := field
      rw [renderAt] at hfuel ⊢
      simp only [List.cons_append, List.append_assoc, List.nil_append, List.length_cons,
        List.length_append] at hfuel ⊢
      obtain ⟨fuel, rfl⟩ := Nat.exists_eq_add_one_of_ne_zero (Nat.ne_zero_of_lt hfuel)
      have hfields := readFields_renderFields h (depth + 1) depth rest
        (show (renderText key).length + (renderAt width (depth + 1) value).length +
          (renderFields width (depth + 1) fields).length < fuel by omega)
      rw [renderText, List.cons_append, List.cons_append] at hfields ⊢
      exact readValue_record hfields (depth + 1)

end Parts

/-! ### Whole texts -/

/-- **A value with blanks behind it is the value of the whole text.** -/
theorem parse_ofList_renderAt_append (width : Nat) (value : Json) {blanks : List Char}
    (h : ∀ c ∈ blanks, isBlank c = true) :
    parse (String.ofList (renderAt width 0 value ++ blanks)) = some value := by
  have hread := reads width value (2 * (renderAt width 0 value ++ blanks).length + 2) 0 blanks
    (by rw [List.length_append]; omega)
  have hend : skip blanks = [] := by
    rw [← List.append_nil blanks, skip_append h]
    rfl
  rw [parse, String.toList_ofList, hread]
  simp only [Option.bind_eq_bind, Option.bind_some, hend]
  rfl

/-! ### Layout -/

/-- The control characters of a text. -/
def controls (text : List Char) : List Char :=
  text.filter (·.toNat < 0x20)

/-- The control characters of two texts are counted text by text. -/
theorem controls_append (before after : List Char) :
    controls (before ++ after) = controls before ++ controls after :=
  List.filter_append ..

/-- A character that is no control character does not count. -/
theorem controls_cons {c : Char} (h : ¬c.toNat < 0x20) (text : List Char) :
    controls (c :: text) = controls text :=
  List.filter_cons_of_neg (by simpa using h)

/-- A written text has no control characters, whatever the text has. -/
theorem controls_renderText (text : String) : controls (renderText text) = [] := by
  have hdigits : ∀ n < 0x20, controls ['\\', 'u', '0', '0', Numeral.digitChar (n / 16),
      Numeral.digitChar (n % 16)] = [] := by
    decide
  have hescape : ∀ c, controls (escape c) = [] := by
    intro c
    unfold escape
    split_ifs with hquote hbackslash hbackspace hfeed hbreak hreturn htab hcontrol
    iterate 7 rfl
    · exact hdigits c.toNat hcontrol
    · exact controls_cons hcontrol []
  have hbody : controls (text.toList.flatMap escape) = [] := by
    rw [controls, List.filter_flatMap]
    exact List.flatMap_eq_nil_iff.2 fun c _ => hescape c
  rw [renderText, controls_append, controls_cons (by decide), hbody]
  rfl

/-- A line break is the one control character in its layout. -/
theorem controls_newline (width depth : Nat) : controls (newline width depth) = ['\n'] := by
  have hspaces : controls (List.replicate (width * depth) ' ') = [] := by
    rw [controls, List.filter_replicate_of_neg (by decide)]
  rw [newline, controls, List.filter_cons_of_pos (by decide)]
  exact congrArg ('\n' :: ·) hspaces

/-- The control characters of a written value are `n` line breaks. -/
def HasBreaks (width n : Nat) (value : Json) : Prop :=
  ∀ depth, controls (renderAt width depth value) = List.replicate n '\n'

/-- The line breaks of a list or record whose parts have so many: one before each part, and one
before the closing bracket. -/
def breaksAround : List Nat → Nat
  | [] => 0
  | count :: counts => (count :: counts).sum + (count :: counts).length + 1

section Breaks

variable {width : Nat} {counts : List Nat}

/-- A written string has no line breaks: those that it contains are escaped. -/
theorem hasBreaks_string (width : Nat) (text : String) : HasBreaks width 0 (.string text) := by
  intro depth
  rw [renderAt, controls_renderText]
  rfl

/-- Each item of a list has a line break in front of it, besides its own. -/
theorem controls_renderItems {items : List Json} (depth : Nat)
    (h : List.Forall₂ (HasBreaks width) counts items) :
    controls (renderItems width depth items) =
      List.replicate (counts.sum + counts.length) '\n' := by
  induction h with
  | nil => rw [renderItems]; rfl
  | cons hitem _ ih =>
    rw [renderItems, controls_append, controls_append, controls_cons (by decide), controls_newline,
      hitem, ih, ← List.replicate_one, List.replicate_append_replicate,
      List.replicate_append_replicate, List.sum_cons, List.length_cons]
    congr 1
    omega

/-- A list has the line breaks of its items and those around them. -/
theorem hasBreaks_list {items : List Json} (h : List.Forall₂ (HasBreaks width) counts items) :
    HasBreaks width (breaksAround counts) (.list items) := by
  intro depth
  cases h with
  | nil => rw [renderAt]; rfl
  | cons hitem hitems =>
    have hclosing : controls [']'] = [] := rfl
    rw [renderAt, controls_append, controls_append, controls_append, controls_append, hclosing,
      controls_cons (by decide), controls_newline, controls_newline, hitem,
      controls_renderItems _ hitems, List.append_nil, ← List.replicate_one,
      List.replicate_append_replicate, List.replicate_append_replicate,
      List.replicate_append_replicate, breaksAround, List.sum_cons, List.length_cons]
    congr 1
    omega

/-- Each field of a record has a line break in front of it, besides those of its value. -/
theorem controls_renderFields {fields : List (String × Json)} (depth : Nat)
    (h : List.Forall₂ (fun n field => HasBreaks width n field.2) counts fields) :
    controls (renderFields width depth fields) =
      List.replicate (counts.sum + counts.length) '\n' := by
  induction h with
  | nil => rw [renderFields]; rfl
  | @cons n field counts fields hfield _ ih =>
    obtain ⟨key, value⟩ := field
    have hcolon : controls [':', ' '] = [] := rfl
    rw [renderFields, controls_append, controls_append, controls_append, controls_append,
      controls_cons (by decide), controls_newline, controls_renderText, hcolon, hfield, ih,
      List.append_nil, List.append_nil, ← List.replicate_one, List.replicate_append_replicate,
      List.replicate_append_replicate, List.sum_cons, List.length_cons]
    congr 1
    omega

/-- A record has the line breaks of its values and those around its fields. -/
theorem hasBreaks_record {fields : List (String × Json)}
    (h : List.Forall₂ (fun n field => HasBreaks width n field.2) counts fields) :
    HasBreaks width (breaksAround counts) (.record fields) := by
  intro depth
  cases h with
  | nil => rw [renderAt]; rfl
  | @cons n field counts fields hfield hfields =>
    obtain ⟨key, value⟩ := field
    have hcolon : controls [':', ' '] = [] := rfl
    have hclosing : controls ['\x7d'] = [] := rfl
    rw [renderAt, controls_append, controls_append, controls_append, controls_append,
      controls_append, controls_append, hclosing, hcolon, controls_cons (by decide),
      controls_newline, controls_newline, controls_renderText, hfield,
      controls_renderFields _ hfields, List.append_nil, List.append_nil, List.append_nil,
      ← List.replicate_one, List.replicate_append_replicate, List.replicate_append_replicate,
      List.replicate_append_replicate, breaksAround, List.sum_cons, List.length_cons]
    congr 1
    omega

end Breaks

end Accession.Json
