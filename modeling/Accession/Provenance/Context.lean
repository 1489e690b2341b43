import Accession.Digest.Functions
import Accession.Instant.Basic
import Accession.Text.Character
set_option autoImplicit false

/-!
# Where identifiers and times come from

What new records need that they do not say themselves.

## Main definitions

* `Supply` — an endless row of items, some of them taken.
* `Supply.sequential` — numbered identifiers.
* `Supply.ticking` — a clock that moves on by a second each time it is read.
* `Supply.constant` — the same item over and over.
* `Provenance.Context` — the supplies that an event needs.
* `Uuid.render` — the form of a UUID.
* `Uuid.supply` — the identifiers of a seed.
-/

/-! ## Supplies

New events need fresh identifiers and the current time. Both are supplies: endless rows of items
that are taken one after the other, so that the same supplies give the same records. -/

namespace Accession

/-- An endless row of items, the first `taken` of which are gone. -/
structure Supply (α : Type) where
  item : Nat → α
  taken : Nat

namespace Supply

variable {α : Type}

/-- The next item, and the supply without it. -/
def take (s : Supply α) : α × Supply α :=
  (s.item s.taken, { s with taken := s.taken + 1 })

/-- Identifiers numbered from one, behind a common stem. -/
def sequential (stem : String) : Supply String :=
  ⟨fun n => stem ++ "-" ++ toString (n + 1), 0⟩

/-- A clock that starts at a moment and moves on by a second each time it is read. -/
def ticking (start : Instant) : Supply Instant :=
  ⟨start.afterSeconds, 0⟩

/-- The same item over and over. -/
def constant (item : α) : Supply α :=
  ⟨fun _ => item, 0⟩

end Supply

namespace Provenance

/-- What a new event needs from outside. -/
structure Context where
  ids : Supply String
  times : Supply Instant

/-- The next identifier. -/
def Context.nextId (context : Context) : String × Context :=
  let (id, ids) := context.ids.take
  (id, { context with ids })

/-- The current time. -/
def Context.now (context : Context) : Instant × Context :=
  let (time, times) := context.times.take
  (time, { context with times })

end Provenance

end Accession

/-! ## Random identifiers

Identifiers in the form of UUIDs of version 4. They are drawn from a seed: each identifier is made
of the digest of the seed and of its number, so that a seed of random octets gives identifiers that
nobody can foresee, and different ones. -/

namespace Accession.Uuid

/-- Octets as groups of hexadecimal digits, with hyphens between them. -/
def renderGroups (sizes : List Nat) (octets : List UInt8) : List Char :=
  match sizes with
  | [] => []
  | [size] => (octets.take size).flatMap Numeral.hexOctet
  | size :: sizes =>
    (octets.take size).flatMap Numeral.hexOctet ++ '-' :: renderGroups sizes (octets.drop size)

/-- Octets with the bits set that tell the version and the variant of a UUID. -/
def mark (octets : List UInt8) : List UInt8 :=
  (octets.modify 6 fun b => b % 16 + 0x40).modify 8 fun b => b % 64 + 0x80

/-- The UUID of version 4 with the bits of some octets, of which the first sixteen count. -/
def render (octets : List UInt8) : String :=
  String.ofList (renderGroups [4, 2, 2, 2, 6] (mark octets))

/-- The identifiers of a seed. -/
def supply (seed : List UInt8) : Supply String :=
  ⟨fun n => render (Digest.sha256.digest (seed ++ Digest.bigEndianOctets 8 n)), 0⟩

end Accession.Uuid
