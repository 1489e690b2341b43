import Accession.Manifest.Reader
import Accession.Proofs.Markup.Content
set_option autoImplicit false

/-!
# Written manifests

An inventory is a tree of folders and files, and declares a file for every leaf. It can be written
in many ways: with any prefixes and attributes, with layout between the elements, with the parts of
a file in any order, and with texts in any of their written forms. This file has the tree, the files
it declares, and the texts that write it.

## Main definitions

* `Manifest.Entry`, `Manifest.files` — the tree and the files it declares.
* `Manifest.WrittenEntries`, `Manifest.WrittenManifest` — the texts that write an inventory.
-/

namespace Accession.Manifest

open Markup (WrittenTag WrittenText isLayout localPart)

/-! ### Inventories -/

/-- A folder with its entries, or a file with what is declared about it. -/
inductive Entry where
  | folder (name : String) (entries : List Entry)
  | file (name : String) (declaration : Declaration)

mutual

/-- The files that an entry inside some folders declares, in document order. The path of a file is
made of the names of the folders around it and of its own; its checksum fields are trimmed. -/
def Entry.files (folders : List String) : Entry → List (String × Declaration)
  | .folder name entries => Manifest.files (folders ++ [name]) entries
  | .file name declaration =>
    [(Path.ofSegments (folders ++ [name]), State.trimmed declaration)]
  termination_by structural entry => entry

/-- The files that entries inside some folders declare, in document order. -/
def files (folders : List String) : List Entry → List (String × Declaration)
  | [] => []
  | entry :: entries => entry.files folders ++ files folders entries
  termination_by structural entries => entries

end

/-! ### Fields -/

/-- A tag bears the name of an element, with any prefix or none. -/
def Bears (t : WrittenTag) (element : Element) : Prop :=
  localPart t.name = element.tag.toList

instance (t : WrittenTag) (element : Element) : Decidable (Bears t element) :=
  inferInstanceAs (Decidable (_ = _))

/-- An element with a text. One without text may be written with one tag. -/
inductive WrittenField (element : Element) : String → List Char → Prop
  | element {t : WrittenTag} {written text trail : List Char} (ht : Bears t element)
      (hwritten : WrittenText written text) (htrail : ∀ c ∈ trail, isLayout c) :
      WrittenField element (String.ofList text) (t.element written trail)
  | empty {t : WrittenTag} (ht : Bears t element) : WrittenField element "" t.emptyElement

/-- The fields of a file: its name, its algorithm and its hash, each at most once and in any order,
with layout around them. -/
inductive WrittenFields : Option String → Option String → Option String → List Char → Prop
  | nil {layout : List Char} (hlayout : ∀ c ∈ layout, isLayout c) :
      WrittenFields none none none layout
  | name {layout field rest : List Char} {text : String} {algorithm hash : Option String}
      (hlayout : ∀ c ∈ layout, isLayout c) (hfield : WrittenField .name text field)
      (hrest : WrittenFields none algorithm hash rest) :
      WrittenFields (some text) algorithm hash (layout ++ (field ++ rest))
  | algorithm {layout field rest : List Char} {text : String} {name hash : Option String}
      (hlayout : ∀ c ∈ layout, isLayout c) (hfield : WrittenField .algorithm text field)
      (hrest : WrittenFields name none hash rest) :
      WrittenFields name (some text) hash (layout ++ (field ++ rest))
  | hash {layout field rest : List Char} {text : String} {name algorithm : Option String}
      (hlayout : ∀ c ∈ layout, isLayout c) (hfield : WrittenField .hash text field)
      (hrest : WrittenFields name algorithm none rest) :
      WrittenFields name algorithm (some text) (layout ++ (field ++ rest))

/-- The first attribute called `id` has a value that spells an identifier. -/
def Identifies (t : WrittenTag) (id : String) : Prop :=
  ∃ a, t.attributes.find? (localPart ·.key = ['i', 'd']) = some a ∧ Markup.Spells a.value id.toList

/-! ### Entries -/

/-- Entries with layout around them. A folder has its name in front of its entries; algorithm and
hash of a file are empty if they are not written. No name is empty. -/
inductive WrittenEntries : List Entry → List Char → Prop
  | nil {layout : List Char} (hlayout : ∀ c ∈ layout, isLayout c) : WrittenEntries [] layout
  | folder {layout inside field inner trail rest : List Char} {t : WrittenTag} {name : String}
      {entries more : List Entry} (hlayout : ∀ c ∈ layout, isLayout c) (ht : Bears t .folder)
      (hinside : ∀ c ∈ inside, isLayout c) (hname : name ≠ "")
      (hfield : WrittenField .name name field) (hinner : WrittenEntries entries inner)
      (htrail : ∀ c ∈ trail, isLayout c) (hmore : WrittenEntries more rest) :
      WrittenEntries (.folder name entries :: more)
        (layout ++ (t.element (inside ++ (field ++ inner)) trail ++ rest))
  | file {layout fields trail rest : List Char} {t : WrittenTag} {id name : String}
      {algorithm hash : Option String} {more : List Entry} (hlayout : ∀ c ∈ layout, isLayout c)
      (ht : Bears t .file) (hid : Identifies t id) (hname : name ≠ "")
      (hfields : WrittenFields (some name) algorithm hash fields)
      (htrail : ∀ c ∈ trail, isLayout c) (hmore : WrittenEntries more rest) :
      WrittenEntries (.file name ⟨id, algorithm.getD "", hash.getD ""⟩ :: more)
        (layout ++ (t.element fields trail ++ rest))

/-- An inventory. One without entries may be written with one tag. -/
inductive WrittenInventory : List Entry → List Char → Prop
  | element {t : WrittenTag} {entries : List Entry} {inner trail : List Char}
      (ht : Bears t .inventory) (hinner : WrittenEntries entries inner)
      (htrail : ∀ c ∈ trail, isLayout c) : WrittenInventory entries (t.element inner trail)
  | empty {t : WrittenTag} (ht : Bears t .inventory) : WrittenInventory [] t.emptyElement

/-- What stands in front of the package: layout, or an instruction such as the declaration of the
version, and layout. -/
inductive WrittenProlog : List Char → Prop
  | layout {layout : List Char} (hlayout : ∀ c ∈ layout, isLayout c) : WrittenProlog layout
  | instruction {content layout : List Char} (hend : ¬['?', '>'] <:+: content)
      (hhead : content.head? ≠ some '>') (hlayout : ∀ c ∈ layout, isLayout c) :
      WrittenProlog ('<' :: '?' :: (content ++ (['?', '>'] ++ layout)))

/-- A manifest with an inventory: maybe a byte order mark, the prolog, and the package, which holds
the inventory. Anything may stand behind the package. -/
inductive WrittenManifest : List Entry → List Char → Prop
  | intro {mark prolog before inventory after trail rest : List Char} {t : WrittenTag}
      {entries : List Entry} (hmark : mark = [] ∨ mark = ['\uFEFF'])
      (hprolog : WrittenProlog prolog) (ht : Bears t .package)
      (hbefore : ∀ c ∈ before, isLayout c) (hinventory : WrittenInventory entries inventory)
      (hafter : ∀ c ∈ after, isLayout c) (htrail : ∀ c ∈ trail, isLayout c) :
      WrittenManifest entries
        (mark ++ (prolog ++ (t.element (before ++ (inventory ++ after)) trail ++ rest)))

end Accession.Manifest
