import Mathlib.Data.List.Induction
import Accession.Files.Tree
import Accession.Proofs.Index
import Accession.Proofs.Text.Decoding
set_option autoImplicit false

/-!
# How paths are spelled

A path is cut where it was joined, in texts and in octets alike, and the octets of a text are cut
where the text is. So names that are UTF-8 can be read off the text that they are shown as, and that
text spells the very path that they make. Of other names neither holds: what they are shown as is
the spelling of something else.

## Main results

* `Path.segments_ofSegments` — names are the segments of the path that they make.
* `Path.exists_join_eq` — how a path begins that is joined to another one.
* `Path.components_join` — a name makes one component more.
* `Path.segments_ofText`, `Path.ofText_join` — texts and octets are cut and joined alike.
* `Path.ofText_eq_ofSegments_iff` — a text spells the path of names exactly if they are texts, and
  shown by it.
-/

namespace Accession

open Mark Spelled

attribute [simp] marks_ofMarks ofMarks_marks

/-! ### Octets of texts -/

namespace Octets

/-- A text is shown as itself. -/
@[simp] theorem shown_ofText (text : String) : (text : Octets).shown = text := by
  rw [shown, ofText, Utf8.decodeLossy_encode, String.ofList_toList]

/-- Different texts have different octets. -/
theorem ofText_injective : Function.Injective ofText := fun text text' h => by
  rw [← shown_ofText text, h, shown_ofText]

/-- Octets are those of a text exactly if they are those of the text that they are shown as. -/
theorem isText_iff {octets : Octets} : octets.IsText ↔ (octets.shown : Octets) = octets := by
  constructor
  · rintro ⟨text, rfl⟩
    rw [shown_ofText]
  · intro h
    exact ⟨octets.shown, h.symm⟩

/-- Octets spell a text exactly if they are its own. -/
theorem text?_eq_some_iff {octets : Octets} {text : String} :
    octets.text? = some text ↔ octets = text := by
  have hdecode : Utf8.decode octets.toList = .ok text.toList ↔ octets = text := by
    rw [Utf8.decode_eq_ok_iff]
    exact ⟨congrArg mk, fun h => h ▸ rfl⟩
  rw [← hdecode, text?]
  cases Utf8.decode octets.toList with
  | error fault => simp
  | ok decoded =>
    simp only [Option.some.injEq, Except.ok.injEq]
    exact ⟨fun h => h ▸ String.toList_ofList.symm, fun h => h ▸ String.ofList_toList⟩

end Octets

namespace Path

/-! ### Segments -/

section

variable {τ μ : Type} [DecidableEq μ] [Mark μ] [Spelled τ μ]

omit [DecidableEq μ] [Mark μ] in
/-- A path is known by the marks it is written with. -/
theorem marks_injective : Function.Injective (marks : τ → List μ) := fun path path' h => by
  rw [← ofMarks_marks path, h, ofMarks_marks]

/-- A path has segments, be they idle. -/
theorem segments_ne_nil (path : τ) : segments path ≠ [] := by
  rw [segments, Ne, List.map_eq_nil_iff]
  exact List.splitOn_ne_nil _ _

/-- The segments of a path that is cut at a slash. -/
theorem segments_ofMarks_append (before after : List μ) :
    segments (ofMarks (before ++ slash :: after) : τ) =
      segments (ofMarks before) ++ segments (ofMarks after) := by
  simp only [segments, marks_ofMarks, List.splitOn_append_cons_self, List.map_append]

/-- A slash at the end of a path adds an idle segment. -/
theorem segments_ofMarks_concat (row : List μ) :
    segments (ofMarks (row ++ [slash]) : τ) = segments (ofMarks row) ++ [ofMarks []] := by
  have hlast : segments (ofMarks [] : τ) = [ofMarks []] := by
    rw [segments, marks_ofMarks, List.splitOn_nil, List.map_singleton]
  rw [segments_ofMarks_append, hlast]

/-- Names without slashes are the segments of the path that they make. -/
theorem segments_ofSegments {names : List τ} (hne : names ≠ [])
    (hnames : ∀ name ∈ names, slash ∉ marks name) : segments (ofSegments names) = names := by
  have hsplit : (List.intercalate [slash] (names.map marks)).splitOn slash = names.map marks :=
    List.splitOn_intercalate slash (by simpa using hnames) (by simpa using hne)
  rw [segments, ofSegments, marks_ofMarks, hsplit, List.map_map]
  exact List.map_id'' ofMarks_marks names

omit [DecidableEq μ] in
/-- A single name is spelled without a separator. -/
theorem ofSegments_singleton (name : τ) : ofSegments [name] = name := by
  rw [ofSegments, List.map_singleton, List.intercalate_singleton, ofMarks_marks]

/-- A path is made by its segments. -/
theorem ofSegments_segments (path : τ) : ofSegments (segments path) = path := by
  have hmap : ((marks path).splitOn slash).map (marks ∘ (ofMarks : List μ → τ)) =
      (marks path).splitOn slash := List.map_id'' marks_ofMarks _
  rw [ofSegments, segments, List.map_map, hmap, List.intercalate_splitOn, ofMarks_marks]

/-- What a path starts from that is joined to `base`: all of `base`, and a slash after it. -/
theorem exists_join_eq {base : τ} (hbase : marks base ≠ []) :
    ∃ before, (marks base = before ∨ marks base = before ++ [slash]) ∧
      ∀ path, isAbsolute path = false →
        join base path = ofMarks (before ++ slash :: marks path) := by
  by_cases hslash : endsWithSlash base = true
  · obtain ⟨before, hbefore⟩ := List.getLast?_eq_some_iff.1 (of_decide_eq_true hslash)
    refine ⟨before, .inr hbefore, fun path hpath => ?_⟩
    rw [join, if_neg (by simp [hpath, hbase]), if_pos hslash, hbefore, List.append_assoc,
      List.singleton_append]
  · exact ⟨marks base, .inl rfl, fun path hpath => by
      rw [join, if_neg (by simp [hpath, hbase]), if_neg hslash]⟩

/-- Joining puts the same marks in front of every relative path. -/
theorem exists_marks_join_eq_append (base : τ) :
    ∃ before, ∀ path, isAbsolute path = false → marks (join base path) = before ++ marks path := by
  by_cases hbase : marks base = []
  · exact ⟨[], fun path _ => by rw [join, if_pos (.inr hbase), List.nil_append]⟩
  · obtain ⟨before, -, hjoin⟩ := exists_join_eq hbase
    exact ⟨before ++ [slash], fun path hpath => by
      rw [hjoin path hpath, marks_ofMarks, List.append_assoc, List.singleton_append]⟩

/-- A path joined to `base` begins with all of it. -/
theorem marks_prefix_marks_join (base : τ) {path : τ} (hpath : isAbsolute path = false) :
    marks base <+: marks (join base path) := by
  by_cases hbase : marks base = []
  · rw [hbase]
    exact List.nil_prefix
  · obtain ⟨before, hbefore, hjoin⟩ := exists_join_eq hbase
    rw [hjoin path hpath, marks_ofMarks]
    rcases hbefore with h | h <;> rw [h]
    · exact List.prefix_append ..
    · exact ⟨marks path, by rw [List.append_assoc, List.singleton_append]⟩

/-- A path that starts from the root has an empty segment in front. -/
theorem segments_of_isAbsolute {path : τ} (h : isAbsolute path = true) :
    ∃ rest, segments path = ofMarks [] :: rest := by
  obtain ⟨after, hafter⟩ := List.head?_eq_some_iff.1 (of_decide_eq_true h)
  exact ⟨_, by rw [segments, hafter, List.splitOn_cons_eq_if_modifyHead, if_pos (by simp)]; rfl⟩

/-- Whether a path starts from the root is seen from its beginning. -/
theorem isAbsolute_ofMarks_append {before : List μ} (hbefore : before ≠ []) (after : List μ) :
    isAbsolute (ofMarks (before ++ after) : τ) = isAbsolute (ofMarks before : τ) := by
  rw [isAbsolute, isAbsolute, marks_ofMarks, marks_ofMarks, List.head?_append_of_ne_nil _ hbefore]

omit [DecidableEq μ] in
/-- A mark of a path that names make is a slash or stands in one of them. -/
theorem mem_marks_ofSegments {names : List τ} {mark : μ} (h : mark ∈ marks (ofSegments names)) :
    mark = slash ∨ ∃ name ∈ names, mark ∈ marks name := by
  rw [ofSegments, marks_ofMarks] at h
  induction names with
  | nil => simp at h
  | cons name names ih =>
    cases names with
    | nil => exact .inr ⟨name, List.mem_singleton_self name, by simpa using h⟩
    | cons next names =>
      rw [List.map_cons, List.map_cons, List.intercalate_cons_cons] at h
      simp only [List.mem_append, List.mem_singleton] at h
      rcases h with (h | h) | h
      · exact .inr ⟨name, List.mem_cons_self, h⟩
      · exact .inl h
      · exact (ih h).imp_right fun ⟨other, hother, hmark⟩ =>
          ⟨other, List.mem_cons_of_mem _ hother, hmark⟩

end

/-- The segments of a text that is cut at a slash. -/
theorem segments_append_slash (before after : String) :
    segments (before ++ "/" ++ after) = segments before ++ segments after := by
  have hcut : before ++ "/" ++ after = ofMarks (before.toList ++ slash :: after.toList) := by
    refine String.toList_injective ?_
    rw [show (ofMarks _ : String) = String.ofList _ from rfl, String.toList_ofList,
      String.toList_append, String.toList_append, List.append_assoc]
    rfl
  rw [hcut, segments_ofMarks_append]
  exact congrArg₂ (segments · ++ segments ·) String.ofList_toList String.ofList_toList

/-! ### Paths of proper names -/

/-- A proper name has at least one octet. -/
theorem toList_ne_nil_of_proper {name : Octets} (h : ProperName name) : name.toList ≠ [] :=
  fun hempty => h.1 (by simp [isIdle, marks, hempty])

section

variable {names : List Octets} (hne : names ≠ []) (hproper : ∀ name ∈ names, ProperName name)

include hne hproper

/-- Proper names can be read off the path that they make. -/
theorem segments_of_proper : segments (ofSegments names) = names :=
  segments_ofSegments hne fun name hname => (hproper name hname).2.2.1

/-- Proper names make a path that does not start from the root. -/
theorem isAbsolute_of_proper : isAbsolute (ofSegments names) = false := by
  by_contra habsolute
  obtain ⟨rest, hrest⟩ := segments_of_isAbsolute (Bool.not_eq_false _ ▸ habsolute)
  rw [segments_of_proper hne hproper] at hrest
  exact (hproper (ofMarks []) (by simp [hrest])).1 rfl

omit hne in
/-- No octet ends the path that proper names make. -/
theorem nul_not_mem_of_proper : 0 ∉ (ofSegments names).toList := by
  intro hmem
  have hmarks : (0 : UInt8) ∈ marks (ofSegments names) := hmem
  rcases mem_marks_ofSegments hmarks with hslash | ⟨name, hname, hmem⟩
  · revert hslash
    decide
  · exact (hproper name hname).2.2.2 hmem

end

/-! ### Components -/

/-- A path that is continued by a proper name is made of one component more. -/
theorem components_join {dir name : Octets} (hdir : marks dir ≠ []) (hname : ProperName name) :
    components (join dir name) = components dir ++ [.name name] := by
  have hnames : ∀ other ∈ [name], ProperName other := by simpa using hname
  have hsegments : segments name = [name] := by
    simpa [ofSegments_singleton] using segments_of_proper (List.cons_ne_nil name []) hnames
  have habsolute : isAbsolute name = false := by
    simpa [ofSegments_singleton] using isAbsolute_of_proper (List.cons_ne_nil name []) hnames
  have hlast : ([name].filter (!isIdle ·)).map Component.ofSegment = [.name name] := by
    simp [Component.ofSegment, hname.1, hname.2.1]
  obtain ⟨before, hbefore, hjoin⟩ := exists_join_eq hdir
  have hroot : isAbsolute (ofMarks (before ++ slash :: marks name) : Octets) = isAbsolute dir := by
    rw [← ofMarks_marks dir]
    rcases hbefore with h | h
    · rw [h, isAbsolute_ofMarks_append (h ▸ hdir)]
    · rw [h, ← List.singleton_append, ← List.append_assoc,
        isAbsolute_ofMarks_append (by simp)]
  have hjoined : segments (ofMarks (before ++ slash :: marks name) : Octets) =
      segments (ofMarks before) ++ [name] := by
    rw [segments_ofMarks_append, ofMarks_marks, hsegments]
  have hne := segments_ne_nil (ofMarks before : Octets)
  have hold : (segments dir).filter (!isIdle ·) =
        (segments (ofMarks before : Octets)).filter (!isIdle ·) ∧
      (segments dir).head? = (segments (ofMarks before : Octets)).head? := by
    rw [← ofMarks_marks dir]
    rcases hbefore with h | h <;> rw [h]
    · exact ⟨rfl, rfl⟩
    · rw [segments_ofMarks_concat, List.filter_append, List.head?_append_of_ne_nil _ hne]
      exact ⟨List.append_nil _, rfl⟩
  rw [hjoin name habsolute, components, components, hroot, hjoined, hold.1, hold.2,
    List.filter_append, List.head?_append_of_ne_nil _ hne, List.map_append, hlast]
  split
  · rfl
  · split <;> rfl

/-- What is behind a path in one that is made of it and some names. -/
theorem relativeTo?_of_components {base path : Octets} {names : List Octets}
    (h : components path = components base ++ names.map .name) :
    relativeTo? base path = some (names.map .name) := by
  rw [relativeTo?, h, List.isPrefixOf?_eq_some_iff_append_eq]

/-- The names among components that are names are these. -/
theorem filterMap_name?_map_name (names : List Octets) :
    (names.map Component.name).filterMap Component.name? = names := by
  rw [List.filterMap_map]
  exact List.filterMap_some

/-! ### Texts and their octets -/

/-- The octets of a text are cut where the text is. -/
theorem splitOn_encode (text : List Char) :
    (Utf8.encode text).splitOn slash = (text.splitOn '/').map Utf8.encode := by
  by_cases hslash : '/' ∈ text
  · obtain ⟨before, after, rfl⟩ := List.append_of_mem hslash
    have hcut : Utf8.encode (before ++ '/' :: after) =
        Utf8.encode before ++ slash :: Utf8.encode after := by
      rw [Utf8.encode_append, Utf8.encode_cons]
      rfl
    rw [hcut, List.splitOn_append_cons_self, List.splitOn_append_cons_self, splitOn_encode before,
      splitOn_encode after, List.map_append]
  · have hoctet : slash ∉ Utf8.encode text :=
      (Utf8.mem_encode_iff (c := '/') (by decide) text).not.2 hslash
    rw [List.splitOn_eq_singleton hslash, List.splitOn_eq_singleton hoctet, List.map_singleton]
  termination_by text.length

/-- A text cut at its separators and then written in octets is its octets cut at theirs: no other
character has an octet in common with the separator. -/
theorem segments_ofText (path : String) :
    segments (path : Octets) = (segments path).map Octets.ofText := by
  have hsplit : (marks (path : Octets)).splitOn slash = (path.toList.splitOn '/').map Utf8.encode :=
    splitOn_encode path.toList
  rw [segments, segments, hsplit, List.map_map, List.map_map]
  refine List.map_congr_left fun piece _ => congrArg Octets.mk (congrArg Utf8.encode ?_)
  exact String.toList_ofList.symm

/-- Rows that are joined by separators are encoded row by row. -/
theorem encode_intercalate (rows : List (List Char)) :
    Utf8.encode (List.intercalate ['/'] rows) =
      List.intercalate [slash] (rows.map Utf8.encode) := by
  induction rows with
  | nil => rfl
  | cons row rows ih =>
    cases rows with
    | nil => simp
    | cons next rows =>
      rw [List.map_cons, List.map_cons, List.intercalate_cons_cons, List.intercalate_cons_cons,
        Utf8.encode_append, Utf8.encode_append, ih, List.map_cons]
      rfl

/-- The octets of a path that texts make are those of the path that their octets make. -/
theorem ofText_ofSegments (names : List String) :
    Octets.ofText (ofSegments names) = ofSegments (names.map Octets.ofText) := by
  have hrows : (names.map Octets.ofText).map marks = (names.map marks).map Utf8.encode := by
    rw [List.map_map, List.map_map]
    rfl
  rw [ofSegments, ofSegments, hrows, ← encode_intercalate]
  exact congrArg (fun row => Octets.mk (Utf8.encode row)) String.toList_ofList

/-- A slash stands in the octets of a text where it stands in the text. -/
theorem slash_mem_encode_iff (text : List Char) : slash ∈ Utf8.encode text ↔ '/' ∈ text :=
  Utf8.mem_encode_iff (c := '/') (by decide) text

/-- Every character takes at least one octet. -/
theorem encode_singleton_ne_nil (c : Char) : Utf8.encode [c] ≠ [] := by
  obtain ⟨b, tail, hc, -⟩ := Utf8.exists_next_utf8EncodeChar c
  rw [Utf8.encode_cons, hc, List.cons_append]
  exact List.cons_ne_nil b _

/-- The octets of a text begin with a slash exactly if the text does. -/
theorem isAbsolute_ofText (path : String) : isAbsolute (path : Octets) = isAbsolute path := by
  refine decide_eq_decide.2 ?_
  show (Utf8.encode path.toList).head? = some slash ↔ path.toList.head? = some '/'
  cases path.toList with
  | nil => simp
  | cons c text =>
    rw [← List.singleton_append, Utf8.encode_append,
      List.head?_append_of_ne_nil _ (encode_singleton_ne_nil c)]
    constructor
    · intro h
      rw [List.mem_singleton.1 ((slash_mem_encode_iff [c]).1 (List.mem_of_head? h))]
      rfl
    · intro h
      rw [Option.some.inj h]
      rfl

/-- The octets of a text end with a slash exactly if the text does. -/
theorem endsWithSlash_ofText (path : String) :
    endsWithSlash (path : Octets) = endsWithSlash path := by
  refine decide_eq_decide.2 ?_
  show (Utf8.encode path.toList).getLast? = some slash ↔ path.toList.getLast? = some '/'
  rcases List.eq_nil_or_concat path.toList with htext | ⟨before, c, htext⟩
  · simp [htext]
  · rw [htext, List.concat_eq_append, Utf8.encode_append,
      List.getLast?_append_of_ne_nil _ (encode_singleton_ne_nil c), List.getLast?_concat]
    constructor
    · intro h
      rw [List.mem_singleton.1 ((slash_mem_encode_iff [c]).1 (List.mem_of_getLast? h))]
    · intro h
      rw [Option.some.inj h]
      rfl

/-- The octets of a joined text are those of the two, joined. -/
theorem ofText_join (base path : String) :
    Octets.ofText (join base path) = join (base : Octets) path := by
  have hempty : marks (base : Octets) = [] ↔ marks base = [] := by
    show Utf8.encode base.toList = [] ↔ base.toList = []
    refine ⟨fun h => Utf8.encode_injective h, fun h => by rw [h]; rfl⟩
  simp only [join, isAbsolute_ofText, endsWithSlash_ofText, hempty]
  have hmarks (row : List Char) : Octets.ofText (ofMarks row) = ofMarks (Utf8.encode row) :=
    congrArg (fun row => Octets.mk (Utf8.encode row)) String.toList_ofList
  split
  · rfl
  · split
    · rw [hmarks, Utf8.encode_append]
      rfl
    · rw [hmarks, Utf8.encode_append, Utf8.encode_cons]
      rfl

/-! ### What names are shown as -/

/-- Texts are shown by the path that they make. -/
theorem shown_map_ofText (names : List String) :
    shown (names.map Octets.ofText) = ofSegments names := by
  rw [shown, List.map_map]
  refine congrArg ofSegments ((List.map_congr_left fun name _ => ?_).trans (List.map_id _))
  exact Octets.shown_ofText name

/-- Names that are texts are shown by the path that they make. -/
theorem ofText_shown {names : List Octets} (h : ∀ name ∈ names, name.IsText) :
    Octets.ofText (shown names) = ofSegments names := by
  rw [shown, ofText_ofSegments, List.map_map]
  refine congrArg ofSegments ((List.map_congr_left fun name hname => ?_).trans (List.map_id _))
  exact Octets.isText_iff.1 (h name hname)

/-- **A text spells the path that proper names make exactly if they are texts, and are shown by
it.** -/
theorem ofText_eq_ofSegments_iff {names : List Octets} (hne : names ≠ [])
    (hproper : ∀ name ∈ names, ProperName name) {text : String} :
    Octets.ofText text = ofSegments names ↔
      (∀ name ∈ names, name.IsText) ∧ shown names = text := by
  constructor
  · intro h
    have hnames : names = (segments text).map Octets.ofText := by
      rw [← segments_of_proper hne hproper, ← h, segments_ofText]
    refine ⟨fun name hname => ?_, ?_⟩
    · rw [hnames, List.mem_map] at hname
      obtain ⟨segment, -, rfl⟩ := hname
      exact ⟨segment, rfl⟩
    · rw [hnames, shown_map_ofText, ofSegments_segments]
  · rintro ⟨htexts, rfl⟩
    exact ofText_shown htexts

/-- Proper names that are texts can be told from what they are shown as. -/
theorem names_eq_of_shown_eq {names names' : List Octets} (hne : names ≠ []) (hne' : names' ≠ [])
    (hproper : ∀ name ∈ names, ProperName name) (hproper' : ∀ name ∈ names', ProperName name)
    (htexts : ∀ name ∈ names, name.IsText) (htexts' : ∀ name ∈ names', name.IsText)
    (h : shown names = shown names') : names = names' := by
  rw [← segments_of_proper hne hproper, ← ofText_shown htexts, h, ofText_shown htexts',
    segments_of_proper hne' hproper']

end Path

end Accession
