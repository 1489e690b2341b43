import Accession.Text.Utf8
set_option autoImplicit false

/-!
# What can be wrong with a marked-up text

The causes for which a marked-up text is refused, with their wording. Positions count octets.

## Main definitions

* `Markup.TokenFault`, `Markup.NestingFault`, `Markup.AttributeFault`, `Markup.EntityFault` — the
  causes of each kind.
* `Markup.Error` — any of them.
* `Markup.Error.message`, `Markup.Error.causes` — the wording, and that of what is behind it.
-/

namespace Accession.Markup

/-- Markup that is of no kind, or has no end. -/
inductive TokenFault where
  /-- After `<!` stands neither a comment, a character section nor a document type. -/
  | unknown
  | instruction
  | comment
  | documentType
  | characterData
  | tag
  deriving DecidableEq, Repr

/-- Markup at a place where it may not stand. -/
inductive NestingFault where
  /-- A document type declaration without a name. -/
  | namelessType
  /-- A start tag whose end tag never comes. -/
  | unclosed (name : String)
  /-- An end tag where no element is open. -/
  | unmatched (name : String)
  /-- An end tag other than that of the innermost open element. -/
  | mismatched (expected found : String)
  deriving DecidableEq, Repr

/-- Attributes that are not written as such. -/
inductive AttributeFault where
  /-- No equals sign after a key. -/
  | missingEquals (position : Nat)
  /-- Nothing after the equals sign. -/
  | missingValue (position : Nat)
  /-- A value that begins with no quote. -/
  | unquoted (position : Nat)
  /-- A value without its closing quote. -/
  | unclosed (position : Nat) (quote : Char)
  /-- A key for the second time. -/
  | duplicate (position earlier : Nat)
  deriving DecidableEq, Repr

/-- Character references that refer to no character. -/
inductive ReferenceFault where
  | sign
  | empty
  | digit
  | overflow
  | null
  | noCharacter (code : Nat)
  deriving DecidableEq, Repr

/-- References that cannot be resolved. -/
inductive EntityFault where
  /-- An unknown name, from offset `first` up to before `last`. -/
  | unknown (first last : Nat) (name : String)
  /-- An ampersand at offset `first` without its semicolon, in a text of length `last`. -/
  | unterminated (first last : Nat)
  | reference (fault : ReferenceFault)
  deriving DecidableEq, Repr

/-- The cause for which a marked-up text is refused. -/
inductive Error where
  | token (fault : TokenFault)
  | nesting (fault : NestingFault)
  | attributes (fault : AttributeFault)
  | entity (fault : EntityFault)
  | encoding (fault : Utf8.Fault)
  /-- The text could not be read at all. -/
  | unreadable (reason : String)
  deriving DecidableEq, Repr

/-! ### Wording -/

/-- What is wrong, in words. -/
def TokenFault.message : TokenFault → String
  | .unknown => "unknown or missed symbol in markup"
  | .instruction =>
    "processing instruction or xml declaration not closed: `?>` not found before end of input"
  | .comment => "comment not closed: `-->` not found before end of input"
  | .documentType => "DOCTYPE not closed: `>` not found before end of input"
  | .characterData => "CDATA not closed: `]]>` not found before end of input"
  | .tag => "tag not closed: `>` not found before end of input"

/-- What is wrong, in words. -/
def NestingFault.message : NestingFault → String
  | .namelessType => "`<!DOCTYPE>` declaration does not contain a name of a document type"
  | .unclosed name => s!"start tag not closed: `</{name}>` not found before end of input"
  | .unmatched name => s!"close tag `</{name}>` does not match any open tag"
  | .mismatched expected found => s!"expected `</{expected}>`, but `</{found}>` was found"

/-- What is wrong, in words. -/
def AttributeFault.message : AttributeFault → String
  | .missingEquals position =>
    s!"position {position}: attribute key must be directly followed by `=` or space"
  | .missingValue position => s!"position {position}: `=` must be followed by an attribute value"
  | .unquoted position =>
    s!"position {position}: attribute value must be enclosed in `\"` or `'`"
  | .unclosed position quote =>
    s!"position {position}: missing closing quote `{quote}` in attribute value"
  | .duplicate position earlier =>
    s!"position {position}: duplicated attribute, previous declaration at position {earlier}"

/-- What is wrong, in words. -/
def ReferenceFault.message : ReferenceFault → String
  | .sign => "unexpected number sign"
  | .empty => "cannot parse integer from empty string"
  | .digit => "invalid digit found in string"
  | .overflow => "number too large to fit in target type"
  | .null => "0x0 character is not permitted in XML"
  | .noCharacter code => s!"`{code}` is not a valid codepoint"

/-- The number behind a reference is what failed, so it is named once more as a cause. -/
def ReferenceFault.causes : ReferenceFault → List String
  | .empty => [ReferenceFault.message .empty]
  | .digit => [ReferenceFault.message .digit]
  | .overflow => [ReferenceFault.message .overflow]
  | _ => []

/-- What is wrong, in words. -/
def EntityFault.message : EntityFault → String
  | .unknown first last name => s!"at {first}..{last}: unrecognized entity `{name}`"
  | .unterminated first last =>
    s!"Error while escaping character at range {first}..{last}: Cannot find ';' after '&'"
  | .reference fault => "invalid character reference: " ++ fault.message

/-- What is behind it, outermost first. -/
def EntityFault.causes : EntityFault → List String
  | .reference fault => fault.message :: fault.causes
  | _ => []

/-- What a departure from UTF-8 is called here. -/
def encodingMessage (fault : Utf8.Fault) : String :=
  "cannot decode input using UTF-8: " ++ fault.message

/-- What is wrong, in words. -/
def Error.message : Error → String
  | .token fault => "syntax error: " ++ fault.message
  | .nesting fault => "ill-formed document: " ++ fault.message
  | .attributes fault => "error while parsing attribute: " ++ fault.message
  | .entity fault => fault.message
  | .encoding fault => encodingMessage fault
  | .unreadable reason => "I/O error: " ++ reason

/-- What is behind it, outermost first. -/
def Error.causes : Error → List String
  | .token fault => [fault.message]
  | .nesting fault => [fault.message]
  | .attributes fault => [fault.message]
  | .entity fault => fault.message :: fault.causes
  | .encoding fault => [encodingMessage fault, fault.message]
  | .unreadable reason => [reason]

end Accession.Markup
