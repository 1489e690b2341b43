import Mathlib.Data.Nat.Init
import Accession.Digest.Source
set_option autoImplicit false

/-!
# Digests octet by octet

A digest under way holds less than a block: what it took so far is a message of whole blocks, which
stands in the chaining value, and the octets that wait for their block to be filled. When the
padding follows, nothing waits any more, so the digest is that of the message as a whole.

A source that hands out a message in portions therefore has the digest of the message, wherever one
portion ends and the next one begins, and however often it is interrupted.

## Main definitions

* `Digest.Hasher.Took` — a digest under way has taken certain octets.
* `Digest.handedOut`, `Digest.failure?` — what a source hands out until it ends, and whether it ends
  by a failure.

## Main results

* `Digest.Hasher.took_update` — what it has taken after taking more.
* `Digest.Hasher.finish_update_new` — the digest octet by octet is that of the whole message.
* `Digest.Algorithm.digestReads_eq_digest_handedOut` — the digest of a source.
-/

namespace Accession.Digest

variable {s : Scheme}

/-! ### Blocks -/

/-- No octets make no block. -/
theorem Scheme.blocks_nil (s : Scheme) : s.blocks [] = [] := by
  rw [Scheme.blocks, dif_pos rfl]

/-- The first block is cut off the front, and the others are the blocks of the rest. -/
theorem Scheme.blocks_of_ne_nil (s : Scheme) {bytes : List UInt8} (h : bytes ≠ []) :
    s.blocks bytes = bytes.take s.blockSize :: s.blocks (bytes.drop s.blockSize) := by
  rw [Scheme.blocks, dif_neg h]

/-- A full block at the end of whole blocks is a block of its own. -/
theorem Scheme.blocks_append (s : Scheme) {block : List UInt8} (hblock : block.length = s.blockSize)
    (whole : List UInt8) (hwhole : s.blockSize ∣ whole.length) :
    s.blocks (whole ++ block) = s.blocks whole ++ [block] := by
  have hpos := s.blockSize_pos
  -- The induction takes the first block off, as `blocks` does.
  induction hn : whole.length using Nat.strong_induction_on generalizing whole with
  | _ n ih =>
    by_cases hnil : whole = []
    · have hne : block ≠ [] := by
        rintro rfl
        simp at hblock
        omega
      rw [hnil, List.nil_append, s.blocks_of_ne_nil hne, List.take_of_length_le (by omega),
        List.drop_of_length_le (by omega), s.blocks_nil, List.nil_append]
    · have hlen : s.blockSize ≤ whole.length :=
        Nat.le_of_dvd (List.length_pos_iff.2 hnil) hwhole
      have hrest : s.blockSize ∣ (whole.drop s.blockSize).length := by
        rw [List.length_drop]
        exact Nat.dvd_sub hwhole (Nat.dvd_refl _)
      rw [s.blocks_of_ne_nil (by simp [hnil]), s.blocks_of_ne_nil hnil,
        List.take_append_of_le_length hlen, List.drop_append_of_le_length hlen,
        ih _ (by rw [List.length_drop]; omega) _ hrest rfl, List.cons_append]

/-- The padding makes whole blocks. -/
theorem Scheme.blockSize_dvd_length_padding (s : Scheme) (n : Nat) :
    s.blockSize ∣ n + (s.padding n).length := by
  have hpos := s.blockSize_pos
  have hlen : n + (s.padding n).length =
      (n + 1 + (s.lengthField (8 * n)).length) +
        (s.blockSize - (n + 1 + (s.lengthField (8 * n)).length) % s.blockSize) % s.blockSize := by
    simp [Scheme.padding]
    omega
  rw [hlen]
  generalize n + 1 + (s.lengthField (8 * n)).length = m
  have hmod := Nat.mod_lt m hpos
  have hdiv := Nat.div_add_mod m s.blockSize
  by_cases hzero : m % s.blockSize = 0
  · rw [hzero, Nat.sub_zero, Nat.mod_self, Nat.add_zero]
    exact Nat.dvd_of_mod_eq_zero hzero
  · rw [Nat.mod_eq_of_lt (by omega)]
    exact ⟨m / s.blockSize + 1, by rw [Nat.mul_add]; omega⟩

namespace Hasher

/-! ### What a digest has taken -/

/-- The digest under way has taken these octets: whole blocks, which are compressed, and fewer than
a block, which wait. -/
structure Took (h : Hasher s) (bytes : List UInt8) : Prop where
  total : h.total = bytes.length
  count : h.count = h.pending.length
  short : h.count < s.blockSize
  chain : ∃ whole, bytes = whole ++ h.pending.reverse ∧ s.blockSize ∣ whole.length ∧
    h.chain = (s.blocks whole).foldl s.compress s.start

/-- A new hasher has taken nothing in. -/
theorem took_new (s : Scheme) : (new s).Took [] where
  total := rfl
  count := rfl
  short := s.blockSize_pos
  chain := ⟨[], rfl, Nat.dvd_zero _, by rw [s.blocks_nil]; rfl⟩

/-- One more octet is taken: it waits, or completes the block that waits. -/
theorem Took.absorb {h : Hasher s} {bytes : List UInt8} (htook : h.Took bytes) (b : UInt8) :
    (h.absorb b).Took (bytes ++ [b]) := by
  obtain ⟨htotal, hcount, hshort, whole, rfl, hwhole, hchain⟩ := htook
  unfold Hasher.absorb
  split
  case isTrue hfull =>
    have hblock : (b :: h.pending).reverse.length = s.blockSize := by simp; omega
    refine ⟨by simp [htotal, Nat.add_assoc], rfl, s.blockSize_pos,
      whole ++ (b :: h.pending).reverse, by simp, ?_, ?_⟩
    · rw [List.length_append, hblock]
      exact Nat.dvd_add hwhole (Nat.dvd_refl _)
    · rw [s.blocks_append hblock whole hwhole, List.foldl_append, ← hchain]
      rfl
  case isFalse hfull =>
    exact ⟨by simp [htotal, Nat.add_assoc], by simp [hcount], by simp only; omega, whole, by simp,
      hwhole, hchain⟩

/-- **Octets taken one after the other are taken in order.** -/
theorem took_update {h : Hasher s} {bytes : List UInt8} (htook : h.Took bytes)
    (more : List UInt8) : (h.update more).Took (bytes ++ more) := by
  induction more generalizing h bytes with
  | nil => simpa [update] using htook
  | cons b more ih => simpa [update] using ih (htook.absorb b)

/-- Whole blocks leave nothing waiting. -/
theorem Took.chain_eq {h : Hasher s} {bytes : List UInt8} (htook : h.Took bytes)
    (hbytes : s.blockSize ∣ bytes.length) :
    h.chain = (s.blocks bytes).foldl s.compress s.start := by
  obtain ⟨-, hcount, hshort, whole, rfl, hwhole, hchain⟩ := htook
  rw [List.length_append, List.length_reverse, ← hcount] at hbytes
  have hzero : h.count = 0 :=
    Nat.eq_zero_of_dvd_of_lt ((Nat.dvd_add_right hwhole).1 hbytes) hshort
  have hpending : h.pending = [] := List.length_eq_zero_iff.1 (by omega)
  rw [hpending, List.reverse_nil, List.append_nil, hchain]

/-- **The digest of octets taken one by one is the digest of the whole message.** -/
theorem finish_update_new (s : Scheme) (bytes : List UInt8) :
    ((new s).update bytes).finish = s.digest bytes := by
  have htook : ((new s).update bytes).Took bytes := took_update (took_new s) bytes
  have hpadded := took_update htook (s.padding bytes.length)
  have hchain := hpadded.chain_eq
    (by rw [List.length_append]; exact s.blockSize_dvd_length_padding bytes.length)
  rw [finish, htook.total, hchain, Scheme.digest]

end Hasher

/-- A source that hands out all its octets in one read has the digest of these octets. -/
theorem Algorithm.digestReads_portion (algorithm : Algorithm) (bytes : List UInt8) :
    algorithm.digestReads [.portion bytes] = .ok (algorithm.digest bytes) := by
  have hread : (Hasher.new algorithm.scheme).readAll [.portion bytes] =
      .ok ((Hasher.new algorithm.scheme).update bytes) := by
    cases bytes <;> rfl
  rw [Algorithm.digestReads, hread, Algorithm.digest, ← Hasher.finish_update_new]

/-! ### Sources -/

namespace Read

/-- Whether a source may be read on: what was read is neither its end nor a failure. -/
def goesOn : Read → Bool
  | .portion bytes => !bytes.isEmpty
  | .interrupted => true
  | .failure _ => false

/-- The octets that a read hands out. -/
def octets : Read → List UInt8
  | .portion bytes => bytes
  | .interrupted | .failure _ => []

end Read

/-- The octets that a source hands out before the first empty read or failure. -/
def handedOut (reads : List Read) : List UInt8 :=
  (reads.takeWhile Read.goesOn).flatMap Read.octets

/-- The failure that a source ends with; `none` if it ends by an empty read, or has nothing more to
be read. -/
def failure? (reads : List Read) : Option String :=
  match reads.dropWhile Read.goesOn with
  | .failure reason :: _ => some reason
  | _ => none

namespace Hasher

/-- A portion that is not empty is taken in, and reading goes on. -/
theorem readAll_portion (h : Hasher s) {bytes : List UInt8} (hbytes : bytes ≠ [])
    (reads : List Read) :
    h.readAll (.portion bytes :: reads) = (h.update bytes).readAll reads := by
  cases bytes with
  | nil => exact absurd rfl hbytes
  | cons b bytes => rfl

/-- **A digest under way takes what a source hands out**, or fails with the source. -/
theorem readAll_eq (h : Hasher s) (reads : List Read) :
    h.readAll reads = match failure? reads with
      | some reason => .error reason
      | none => .ok (h.update (handedOut reads)) := by
  induction reads generalizing h with
  | nil => rfl
  | cons read reads ih =>
    cases read with
    | failure reason => rfl
    | interrupted => exact ih h
    | portion bytes =>
      by_cases hbytes : bytes = []
      · subst hbytes
        rfl
      · have hopen : (Read.portion bytes).goesOn = true := by simp [Read.goesOn, hbytes]
        have hfailure : failure? (.portion bytes :: reads) = failure? reads := by
          rw [failure?, List.dropWhile_cons_of_pos hopen, failure?]
        have hout : handedOut (.portion bytes :: reads) = bytes ++ handedOut reads := by
          rw [handedOut, List.takeWhile_cons_of_pos hopen, List.flatMap_cons, handedOut]
          rfl
        rw [h.readAll_portion hbytes, ih, hfailure, hout, update_append]

/-- What is read first is taken alike, whatever follows. -/
theorem readAll_append_congr {after after' : List Read}
    (hafter : ∀ h : Hasher s, h.readAll after = h.readAll after') (before : List Read)
    (h : Hasher s) : h.readAll (before ++ after) = h.readAll (before ++ after') := by
  induction before generalizing h with
  | nil => exact hafter h
  | cons read before ih =>
    rw [List.cons_append, List.cons_append]
    cases read with
    | failure reason => rfl
    | interrupted => exact ih h
    | portion bytes =>
      by_cases hbytes : bytes = []
      · subst hbytes
        rfl
      · rw [h.readAll_portion hbytes, h.readAll_portion hbytes, ih]

/-- A portion may come in two. -/
theorem readAll_cut (h : Hasher s) {xs ys : List UInt8} (hxs : xs ≠ []) (hys : ys ≠ [])
    (reads : List Read) :
    h.readAll (.portion (xs ++ ys) :: reads) =
      h.readAll (.portion xs :: .portion ys :: reads) := by
  rw [h.readAll_portion (by simp [hxs]), h.readAll_portion hxs, readAll_portion _ hys,
    update_append]

end Hasher

/-- **The digest of a source is the digest of the octets that it hands out** before the first empty
read, unless a failure comes first, which is then all there is. So it does not matter where the
source is interrupted, nor where one portion ends and the next one begins.

**Proof sketch.** A hasher takes in octets portion by portion, and what it has taken in is all that
counts: whole blocks are chained, and the rest is kept. -/
theorem Algorithm.digestReads_eq_digest_handedOut (algorithm : Algorithm) :
    (∀ reads, algorithm.digestReads reads = match failure? reads with
      | some reason => .error (.unreadable reason)
      | none => .ok (algorithm.digest (handedOut reads))) ∧
    (∀ before after, algorithm.digestReads (before ++ .interrupted :: after) =
      algorithm.digestReads (before ++ after)) ∧
    ∀ before after xs ys, xs ≠ [] → ys ≠ [] →
      algorithm.digestReads (before ++ .portion (xs ++ ys) :: after) =
        algorithm.digestReads (before ++ .portion xs :: .portion ys :: after) := by
  refine ⟨fun reads => ?_, fun before after => ?_, fun before after xs ys hxs hys => ?_⟩
  · rw [digestReads, Hasher.readAll_eq]
    cases failure? reads with
    | some reason => rfl
    | none => rw [digest, ← Hasher.finish_update_new]
  · have hafter (h : Hasher algorithm.scheme) :
        h.readAll (.interrupted :: after) = h.readAll after := rfl
    rw [digestReads, digestReads, Hasher.readAll_append_congr hafter]
  · have hafter (h : Hasher algorithm.scheme) := h.readAll_cut hxs hys after
    rw [digestReads, digestReads, Hasher.readAll_append_congr hafter]

/-- Four octets with an interruption between them, and a failure behind the end. -/
def interruptedReads : List Read :=
  [.portion [97, 98, 99], .interrupted, .portion [100], .portion [], .failure "torn"]

/-- The first portion may come in two. -/
theorem digestReads_interruptedReads :
    ([97] : List UInt8) ≠ [] ∧ ([98, 99] : List UInt8) ≠ [] ∧
    Algorithm.md5.digestReads interruptedReads = .ok "e2fc714c4727ee9395f324cd2e7f331f" ∧
    Algorithm.md5.digestReads (.portion [97] :: .portion [98, 99] :: interruptedReads.tail) =
      .ok "e2fc714c4727ee9395f324cd2e7f331f" := by
  obtain ⟨hdigest, -, hcut⟩ := Algorithm.md5.digestReads_eq_digest_handedOut
  have hvalue : Algorithm.md5.digest (handedOut interruptedReads) =
      "e2fc714c4727ee9395f324cd2e7f331f" := by decide +kernel
  have hwhole : Algorithm.md5.digestReads interruptedReads =
      .ok "e2fc714c4727ee9395f324cd2e7f331f" := by
    rw [hdigest, show failure? interruptedReads = none by decide, ← hvalue]
  refine ⟨by decide, by decide, hwhole, ?_⟩
  rw [← hwhole]
  exact (hcut [] interruptedReads.tail [97] [98, 99] (by decide) (by decide)).symm

end Accession.Digest
