import Accession.Markup.Error
set_option autoImplicit false

/-!
# Events of a marked-up text

The pieces that a marked-up text is cut into, up to where they are nested wrongly.

## Main definitions

* `Markup.Event` — a piece of a marked-up text.
* `Markup.nextEvent` — the first piece of some octets.
* `Markup.events` — all pieces, and what cut them short.
* `Markup.Document` — the events of a text, and what cut them short.
* `Markup.nest` — events up to the first misplaced end tag.
* `Markup.read` — the events of the octets of a text.

## Main results

* `Markup.length_nextEvent` — an event uses up at least one octet.
-/

/-! ## Events

A marked-up text is a row of tags, texts and asides (comments, instructions, document types). This
module cuts the octets of a text into these events. It looks at no octet beyond what is needed to
find the ends: names and contents stay octets, and nothing is decoded. -/

namespace Accession.Markup

/-- A piece of a marked-up text. -/
inductive Event where
  /-- A start tag: name and attributes. -/
  | start (content : List UInt8)
  /-- A tag that is an element by itself: name and attributes, without the slash at its end. -/
  | empty (content : List UInt8)
  /-- An end tag: the name. -/
  | close (name : List UInt8)
  /-- Octets between markup, at least one. -/
  | text (bytes : List UInt8)
  /-- The content of a character data section, which holds no references. -/
  | characterData (bytes : List UInt8)
  /-- A comment, an instruction or a document type. -/
  | aside
  deriving DecidableEq, Repr

/-- What stands at the front of some octets. -/
inductive Cut where
  | done
  | fault (error : Error)
  | event (event : Event) (rest : List UInt8)

/-- The octets after a cut. -/
def Cut.rest : Cut → List UInt8
  | .event _ rest => rest
  | _ => []

/-- Space, tab, line feed and carriage return separate the parts of a tag. -/
def isSpace (b : UInt8) : Bool :=
  b == 0x20 || b == 0x09 || b == 0x0A || b == 0x0D

/-- The octets of a text. -/
def octets (text : String) : List UInt8 :=
  Utf8.encode text.toList

/-- The name of a tag: its content up to the first space. -/
def nameOf (content : List UInt8) : List UInt8 :=
  content.takeWhile (!isSpace ·)

/-- What follows the first colon of a name, or all of it. -/
def localName (name : List UInt8) : List UInt8 :=
  if name.contains 0x3A then (name.dropWhile (· != 0x3A)).drop 1 else name

/-! ### Finding the end -/

/-- Cuts at the first occurrence of a pattern, which belongs to neither part. The first part is
put after the octets `done`, last one first. -/
def cutAt (pattern done : List UInt8) : List UInt8 → Option (List UInt8 × List UInt8)
  | [] => none
  | b :: rest =>
    if pattern.isPrefixOf (b :: rest) then some (done.reverse, (b :: rest).drop pattern.length)
    else cutAt pattern (b :: done) rest

/-- Cuts a tag at the first `>` outside quotes. `quote` is the quote that is open. -/
def cutTag (quote : Option UInt8) (done : List UInt8) :
    List UInt8 → Option (List UInt8 × List UInt8)
  | [] => none
  | b :: rest =>
    match quote with
    | some q => cutTag (if b = q then none else some q) (b :: done) rest
    | none =>
      if b = 0x3E then some (done.reverse, rest)
      else cutTag (if b = 0x22 ∨ b = 0x27 then some b else none) (b :: done) rest

/-- Cuts a document type at the first `>` that closes none of the `depth` open inner `<`. -/
def cutDocumentType (depth : Nat) (done : List UInt8) :
    List UInt8 → Option (List UInt8 × List UInt8)
  | [] => none
  | b :: rest =>
    if b = 0x3E then
      match depth with
      | 0 => some (done.reverse, rest)
      | depth + 1 => cutDocumentType depth (b :: done) rest
    else cutDocumentType (if b = 0x3C then depth + 1 else depth) (b :: done) rest

/-! ### The first event -/

/-- A comment, after `<!-`. -/
def comment : List UInt8 → Cut
  | 0x2D :: rest =>
    match cutAt [0x2D, 0x2D, 0x3E] [] rest with
    | some (_, rest) => .event .aside rest
    | none => .fault (.token .comment)
  | _ => .fault (.token .comment)

/-- A character data section, after `<!`. -/
def characterData (bytes : List UInt8) : Cut :=
  if (octets "[CDATA[").isPrefixOf bytes then
    match cutAt [0x5D, 0x5D, 0x3E] [] (bytes.drop 7) with
    | some (content, rest) => .event (.characterData content) rest
    | none => .fault (.token .characterData)
  else .fault (.token .characterData)

/-- An octet with the letters `a` to `z` in upper case. -/
def upper (b : UInt8) : UInt8 :=
  if 0x61 ≤ b ∧ b ≤ 0x7A then b - 0x20 else b

/-- A document type, after `<!`. The keyword may have any case, and a name has to follow. -/
def documentType (bytes : List UInt8) : Cut :=
  match cutDocumentType 0 [] bytes with
  | some (content, rest) =>
    if (content.take 7).map upper = octets "DOCTYPE" then
      if (content.drop 7).all isSpace then .fault (.nesting .namelessType)
      else .event .aside rest
    else .fault (.token .documentType)
  | none => .fault (.token .documentType)

/-- Markup after `<!`. -/
def declaration : List UInt8 → Cut
  | [] => .fault (.token .unknown)
  | b :: rest =>
    if b = 0x5B then characterData (b :: rest)
    else if b = 0x2D then comment rest
    else if b = 0x44 ∨ b = 0x64 then documentType (b :: rest)
    else .fault (.token .unknown)

/-- An instruction, after `<?`. -/
def instruction (bytes : List UInt8) : Cut :=
  if bytes.head? = some 0x3E then .fault (.token .instruction)
  else match cutAt [0x3F, 0x3E] [] bytes with
    | some (_, rest) => .event .aside rest
    | none => .fault (.token .instruction)

/-- The name of an end tag, from what follows its slash: spaces at the end do not belong to it,
unless there is nothing else. -/
def closingName (content : List UInt8) : List UInt8 :=
  if content.all isSpace then content
  else (content.reverse.dropWhile isSpace).reverse

/-- The event of a tag with this content. -/
def tagEvent (content : List UInt8) : Event :=
  if content.head? = some 0x2F then .close (closingName (content.drop 1))
  else if content.getLast? = some 0x2F then .empty content.dropLast
  else .start content

/-- A tag, after `<`. -/
def tag (bytes : List UInt8) : Cut :=
  match cutTag none [] bytes with
  | some (content, rest) => .event (tagEvent content) rest
  | none => .fault (.token .tag)

/-- Markup after `<`. -/
def markup : List UInt8 → Cut
  | [] => .fault (.token .tag)
  | b :: rest =>
    if b = 0x21 then declaration rest
    else if b = 0x3F then instruction rest
    else tag (b :: rest)

/-- The first event of some octets. -/
def nextEvent : List UInt8 → Cut
  | [] => .done
  | b :: rest =>
    if b = 0x3C then markup rest
    else .event (.text (b :: rest.takeWhile (· != 0x3C))) (rest.dropWhile (· != 0x3C))

/-! ### An event uses up octets -/

/-- Cutting at a pattern leaves no more than there was. -/
theorem length_cutAt {pattern done bytes before after : List UInt8}
    (h : cutAt pattern done bytes = some (before, after)) : after.length ≤ bytes.length := by
  induction bytes generalizing done with
  | nil => simp [cutAt] at h
  | cons b rest ih =>
    unfold cutAt at h
    split at h
    · obtain ⟨-, rfl⟩ := Prod.mk.inj (Option.some.inj h)
      simp only [List.length_drop]
      omega
    · exact Nat.le_succ_of_le (ih h)

/-- Cutting off a tag leaves no more than there was. -/
theorem length_cutTag {quote : Option UInt8} {done bytes before after : List UInt8}
    (h : cutTag quote done bytes = some (before, after)) : after.length ≤ bytes.length := by
  induction bytes generalizing quote done with
  | nil => simp [cutTag] at h
  | cons b rest ih =>
    unfold cutTag at h
    split at h
    · exact Nat.le_succ_of_le (ih h)
    · split at h
      · obtain ⟨-, rfl⟩ := Prod.mk.inj (Option.some.inj h)
        simp
      · exact Nat.le_succ_of_le (ih h)

/-- Cutting off a document type declaration leaves no more than there was. -/
theorem length_cutDocumentType {depth : Nat} {done bytes before after : List UInt8}
    (h : cutDocumentType depth done bytes = some (before, after)) :
    after.length ≤ bytes.length := by
  induction bytes generalizing depth done with
  | nil => simp [cutDocumentType] at h
  | cons b rest ih =>
    unfold cutDocumentType at h
    split at h
    · split at h
      · obtain ⟨-, rfl⟩ := Prod.mk.inj (Option.some.inj h)
        simp
      · exact Nat.le_succ_of_le (ih h)
    · exact Nat.le_succ_of_le (ih h)

/-- A comment leaves no more than there was. -/
theorem length_comment (bytes : List UInt8) : (comment bytes).rest.length ≤ bytes.length := by
  unfold comment
  split
  · split
    · rename_i h
      exact Nat.le_succ_of_le (length_cutAt h)
    · simp [Cut.rest]
  · simp [Cut.rest]

/-- A section of character data leaves no more than there was. -/
theorem length_characterData (bytes : List UInt8) :
    (characterData bytes).rest.length ≤ bytes.length := by
  unfold characterData
  split
  · split
    · rename_i h
      have := length_cutAt h
      simp only [List.length_drop] at this
      simp only [Cut.rest]
      omega
    · simp [Cut.rest]
  · simp [Cut.rest]

/-- A document type declaration leaves no more than there was. -/
theorem length_documentType (bytes : List UInt8) :
    (documentType bytes).rest.length ≤ bytes.length := by
  unfold documentType
  split
  · rename_i h
    split
    · split
      · simp [Cut.rest]
      · exact length_cutDocumentType h
    · simp [Cut.rest]
  · simp [Cut.rest]

/-- An XML declaration leaves no more than there was. -/
theorem length_declaration (bytes : List UInt8) :
    (declaration bytes).rest.length ≤ bytes.length := by
  unfold declaration
  split
  · simp [Cut.rest]
  · split
    · exact length_characterData _
    · split
      · exact Nat.le_succ_of_le (length_comment _)
      · split
        · exact length_documentType _
        · simp [Cut.rest]

/-- A processing instruction leaves no more than there was. -/
theorem length_instruction (bytes : List UInt8) :
    (instruction bytes).rest.length ≤ bytes.length := by
  unfold instruction
  split
  · simp [Cut.rest]
  · split
    · rename_i h
      exact length_cutAt h
    · simp [Cut.rest]

/-- Whatever follows an opening bracket leaves no more than there was, so that reading event after
event comes to an end. -/
theorem length_markup (bytes : List UInt8) : (markup bytes).rest.length ≤ bytes.length := by
  unfold markup
  split
  · simp [Cut.rest]
  · split
    · exact Nat.le_succ_of_le (length_declaration _)
    · split
      · exact Nat.le_succ_of_le (length_instruction _)
      · unfold tag
        split
        · rename_i h
          exact length_cutTag h
        · simp [Cut.rest]

/-- An event uses up at least one octet. -/
theorem length_nextEvent (b : UInt8) (rest : List UInt8) :
    (nextEvent (b :: rest)).rest.length ≤ rest.length := by
  unfold nextEvent
  dsimp only
  split
  · exact length_markup rest
  · exact (List.dropWhile_suffix _).length_le

/-! ### All events -/

/-- The events of some octets, after the events `done` (last one first), with what cut them
short. -/
def eventsFrom (done : List Event) (bytes : List UInt8) : List Event × Option Error :=
  match _h : bytes with
  | [] => (done.reverse, none)
  | b :: rest =>
    match _hcut : nextEvent (b :: rest) with
    | .done => (done.reverse, none)
    | .fault error => (done.reverse, some error)
    | .event event rest' => eventsFrom (event :: done) rest'
  termination_by bytes.length
  decreasing_by
    have := length_nextEvent b rest
    simp only [_hcut, Cut.rest] at this
    simp only [List.length_cons]
    omega

/-- The byte order mark, which may stand in front of a text. -/
def byteOrderMark : List UInt8 :=
  [0xEF, 0xBB, 0xBF]

/-- Octets without one byte order mark at their front. -/
def dropMark (bytes : List UInt8) : List UInt8 :=
  if byteOrderMark.isPrefixOf bytes then bytes.drop 3 else bytes

/-- The events of a marked-up text, up to its end or to the first piece that is no event, with the
cause in that case. -/
def events (bytes : List UInt8) : List Event × Option Error :=
  eventsFrom [] (dropMark bytes)

end Accession.Markup

/-! ## Nesting of elements

Every end tag has to bear the name of the innermost open element, octet for octet. Reading a
marked-up text stops where that fails. Elements that are still open at the end are no fault here:
what that means is for the reader of the events to say. -/

namespace Accession.Markup

/-- The events of a marked-up text, and what cut them short. -/
structure Document where
  events : List Event
  fault : Option Error
  deriving DecidableEq, Repr

/-- A name for a message; one that is no text is not shown. -/
def shownName (name : List UInt8) : String :=
  match Utf8.decode name with
  | .ok text => String.ofList text
  | .error _ => ""

/-- Follows events as long as end tags fit the open elements, innermost first. `fault` is what cut
the events short, and `done` are the events before, last one first. -/
def nestFrom (fault : Option Error) (done : List Event) (opened : List (List UInt8)) :
    List Event → Document
  | [] => ⟨done.reverse, fault⟩
  | .start content :: events =>
    nestFrom fault (.start content :: done) (nameOf content :: opened) events
  | .close name :: events =>
    match opened with
    | [] => ⟨done.reverse, some (.nesting (.unmatched (shownName name)))⟩
    | expected :: opened =>
      if expected = name then nestFrom fault (.close name :: done) opened events
      else ⟨done.reverse, some (.nesting (.mismatched (shownName expected) (shownName name)))⟩
  | event :: events => nestFrom fault (event :: done) opened events

/-- Events up to the first end tag that does not fit. -/
def nest (events : List Event × Option Error) : Document :=
  nestFrom events.2 [] [] events.1

/-- The events of the octets of a marked-up text. -/
def read (bytes : List UInt8) : Document :=
  nest (events bytes)

end Accession.Markup
