import Mathlib.Algebra.GroupWithZero.Nat
import Mathlib.Data.List.Forall2
import NativeHeaders.Proofs.ClassFile.Steps
import NativeHeaders.Proofs.ClassFile.Taken

/-!
# Attributes in their frames

An attribute stands in a frame: the index of a name, a length, and a block of that length. To read
a table is to take frames off and to judge each block when all of it is there
(`Attribute.decode_eq`). So where an attribute ends is up to the length in front of it, whatever
the block holds and whatever it is called, and a reader that knows no names takes the same frames.

A block that is decoded has the form of its kind (`AttributeKind.Admits`), given here in offsets
and lengths and not by what decodes it. Any other block under one of these names ends the reading
of the whole table, with an error that blames the block (`AttributeKind.Fault`).
-/

set_option autoImplicit false

namespace NativeHeaders

variable {α β : Type}

/-! ## Values that are judged -/

namespace Decoder

/-- Takes a value off, and then judges it without the bytes behind it. -/
def judged (d : Decoder α) (judge : α → Except ClassFileError β) : Decoder β := do
  let a ← d
  match judge a with
  | .ok b => return b
  | .error e => fail e

section Judged

variable {d : Decoder α} {judge : α → Except ClassFileError β} {s s' : ByteStream}

theorem judged_of_eq_ok {a : α} (h : d s = .ok (a, s')) :
    judged d judge s = (judge a).map fun b => (b, s') := by
  rw [judged, bind_apply, h]
  rcases hjudge : judge a with e | b
  · simp only [hjudge]
    rfl
  · simp only [hjudge]
    rfl

theorem judged_eq_ok_iff {b : β} :
    judged d judge s = .ok (b, s') ↔ ∃ a, d s = .ok (a, s') ∧ judge a = .ok b := by
  constructor
  · intro h
    obtain ⟨a, between, ha, -⟩ := bind_eq_ok_iff.1 h
    rw [judged_of_eq_ok ha] at h
    rcases hjudge : judge a with e | b'
    · rw [hjudge] at h
      contradiction
    · rw [hjudge] at h
      obtain ⟨rfl, rfl⟩ := Prod.mk.inj (Except.ok.inj h)
      exact ⟨a, ha, hjudge⟩
  · rintro ⟨a, ha, hjudge⟩
    rw [judged_of_eq_ok ha, hjudge]
    rfl

/-- Judging one by one in between is judging them all when they are there. -/
theorem times_judged_eq_ok_iff {n : Nat} {bs : List β} :
    times n (judged d judge) s = .ok (bs, s')
      ↔ ∃ as, times n d s = .ok (as, s')
        ∧ List.Forall₂ (fun a b => judge a = .ok b) as bs := by
  induction n generalizing s bs with
  | zero =>
    constructor
    · intro h
      obtain ⟨rfl, rfl⟩ := pure_eq_ok_iff.1 h
      exact ⟨[], rfl, .nil⟩
    · rintro ⟨as, has, hjudge⟩
      obtain ⟨rfl, rfl⟩ := pure_eq_ok_iff.1 has
      rw [List.forall₂_nil_left_iff.1 hjudge]
      rfl
  | succ n ih =>
    constructor
    · intro h
      obtain ⟨b, between, hb, hbehind⟩ := bind_eq_ok_iff.1 h
      obtain ⟨others, last, hothers, hbs⟩ := bind_eq_ok_iff.1 hbehind
      obtain ⟨rfl, rfl⟩ := pure_eq_ok_iff.1 hbs
      obtain ⟨a, ha, hjudge⟩ := judged_eq_ok_iff.1 hb
      obtain ⟨as, has, hall⟩ := ih.1 hothers
      refine ⟨a :: as, ?_, .cons hjudge hall⟩
      exact bind_eq_ok_iff.2 ⟨a, between, ha, bind_eq_ok_iff.2 ⟨as, last, has, rfl⟩⟩
    · rintro ⟨as, has, hall⟩
      obtain ⟨a, between, ha, hbehind⟩ := bind_eq_ok_iff.1 has
      obtain ⟨others, last, hothers, has⟩ := bind_eq_ok_iff.1 hbehind
      obtain ⟨rfl, rfl⟩ := pure_eq_ok_iff.1 has
      obtain ⟨b, bs, hjudge, hjudges, rfl⟩ := List.forall₂_cons_left_iff.1 hall
      have hfirst := judged_eq_ok_iff.2 ⟨a, ha, hjudge⟩
      have hbehind := ih.2 ⟨others, hothers, hjudges⟩
      exact bind_eq_ok_iff.2 ⟨b, between, hfirst, bind_eq_ok_iff.2 ⟨bs, last, hbehind, rfl⟩⟩

theorem counted_judged_eq_ok_iff {bs : List β} :
    counted (judged d judge) s = .ok (bs, s')
      ↔ ∃ as, counted d s = .ok (as, s')
        ∧ List.Forall₂ (fun a b => judge a = .ok b) as bs := by
  constructor
  · intro h
    obtain ⟨count, between, hcount, hbs⟩ := bind_eq_ok_iff.1 h
    obtain ⟨as, has, hall⟩ := times_judged_eq_ok_iff.1 hbs
    exact ⟨as, bind_eq_ok_iff.2 ⟨count, between, hcount, has⟩, hall⟩
  · rintro ⟨as, has, hall⟩
    obtain ⟨count, between, hcount, has⟩ := bind_eq_ok_iff.1 has
    exact bind_eq_ok_iff.2 ⟨count, between, hcount, times_judged_eq_ok_iff.2 ⟨as, has, hall⟩⟩

/-- The first value that is judged wrong ends it all, and nothing behind it is looked at. -/
theorem times_judged_eq_error {layout : α → Bytes} {front : List α} {a : α} {e : ClassFileError}
    {n p : Nat} {rest : Bytes} (hfront : ∀ b ∈ front, Reads d (layout b) b ∧ ∃ c, judge b = .ok c)
    (ha : Reads d (layout a) a) (hjudge : judge a = .error e) (hn : front.length < n) :
    times n (judged d judge) ⟨front.flatMap layout ++ (layout a ++ rest), p⟩ = .error e := by
  obtain ⟨n, rfl⟩ := Nat.exists_eq_succ_of_ne_zero (Nat.ne_of_gt (Nat.zero_lt_of_lt hn))
  -- either the next value is the wrong one, or it is right and the wrong one is behind it
  refine bind_eq_error_iff.2 ?_
  induction front generalizing n p with
  | nil =>
    left
    rw [List.flatMap_nil, List.nil_append, judged_of_eq_ok (ha rest p), hjudge]
    rfl
  | cons first front ih =>
    right
    obtain ⟨⟨hreads, b, hb⟩, hothers⟩ := List.forall_mem_cons.1 hfront
    have hlt : front.length < n := Nat.lt_of_succ_lt_succ hn
    obtain ⟨n, rfl⟩ := Nat.exists_eq_succ_of_ne_zero (Nat.ne_of_gt (Nat.zero_lt_of_lt hlt))
    have hbehind : times (n + 1) (judged d judge)
        ⟨front.flatMap layout ++ (layout a ++ rest), p + (layout first).length⟩ = .error e :=
      bind_eq_error_iff.2 (ih hothers n hlt)
    refine ⟨b, _, ?_, bind_eq_error_iff.2 (.inl hbehind)⟩
    rw [List.flatMap_cons, List.append_assoc]
    exact judged_eq_ok_iff.2 ⟨first, hreads _ p, hb⟩

end Judged

/-! ## Errors -/

/-- Whether a decoder fails only because the bytes ended or for some other reasons. -/
def FailsBy (d : Decoder α) (P : ClassFileError → Prop) : Prop :=
  ∀ (s : ByteStream) (e : ClassFileError), d s = .error e → (∃ what, e = .ended what) ∨ P e

namespace FailsBy

variable {P : ClassFileError → Prop}

theorem pure (a : α) : FailsBy (Pure.pure a) P := fun _ _ h => nomatch h

theorem fail {e : ClassFileError} (h : P e) : FailsBy (Decoder.fail e : Decoder α) P := by
  intro s e' he
  rw [← Except.error.inj he]
  exact .inr h

theorem bind {d : Decoder α} {f : α → Decoder β} (hd : FailsBy d P) (hf : ∀ a, FailsBy (f a) P) :
    FailsBy (d >>= f) P := by
  intro s e h
  rcases bind_eq_error_iff.1 h with hfirst | ⟨a, between, -, hsecond⟩
  · exact hd s e hfirst
  · exact hf a between e hsecond

theorem bind_pure {d : Decoder α} (hd : FailsBy d P) (f : α → β) :
    FailsBy (d >>= fun a => Pure.pure (f a)) P :=
  hd.bind fun a => pure (f a)

theorem take (what : Shortfall) (n : Nat) : FailsBy (Decoder.take what n) P := by
  intro s e h
  unfold Decoder.take at h
  split at h
  · contradiction
  · exact .inl ⟨what, (Except.error.inj h).symm⟩

theorem u2 : FailsBy Decoder.u2 P := by
  rw [Decoder.u2, map_eq_pure_bind]
  exact ((take .number 2).bind_pure bigEndian).bind_pure UInt16.ofNat

theorem times {item : Decoder α} (h : FailsBy item P) (n : Nat) :
    FailsBy (Decoder.times n item) P := by
  induction n with
  | zero => exact pure []
  | succ n ih => exact h.bind fun first => ih.bind_pure (first :: ·)

theorem counted {item : Decoder α} (h : FailsBy item P) : FailsBy (Decoder.counted item) P :=
  u2.bind fun count => h.times count.toNat

end FailsBy

end Decoder

open Decoder (Reads Takes Gives FailsBy)

/-! ## Frames -/

namespace AttributeDraft

/-- Whether the length of a block can be written. -/
def Fits (f : AttributeDraft) : Prop := f.content.length < 4294967296

/-- The next frame, with a block of which nothing is looked at. -/
def decode : Decoder AttributeDraft := do
  let nameIndex ← Decoder.u2
  let length ← Decoder.u4
  let content ← Decoder.block length.toNat
  return ⟨nameIndex, content⟩

/-- What stands for the attribute in a frame where no names are known. -/
def numbered (f : AttributeDraft) : Attribute :=
  ⟨f.nameIndex, "#" ++ toString f.nameIndex.toNat, .raw f.content⟩

/-- Whether an attribute is what the bytes of a frame denote: it lays out to them, and its name is
the one at the index, which decides on the form of the body. -/
def Denotes (pool : ConstantPool) (f : AttributeDraft) (a : Attribute) : Prop :=
  a.WellFormed pool ∧ a.draft = f

theorem length_layout (f : AttributeDraft) : f.layout.length = 6 + f.content.length := by
  simp only [layout, Layout.u2, Layout.u4, List.length_append, Layout.length_number]

theorem reads {f : AttributeDraft} (h : f.Fits) : Reads decode f.layout f := by
  have hlength : (UInt32.ofNat f.content.length).toNat = f.content.length :=
    UInt32.toNat_ofNat_of_lt' h
  rw [layout, List.append_assoc]
  refine (Reads.u2 f.nameIndex).bind ?_
  refine (Reads.u4 _).bind ?_
  rw [hlength]
  exact (Reads.block f.content).bind_pure (AttributeDraft.mk f.nameIndex)

/-- The length in front of a block is that of the block. -/
theorem fits_of_decode {f : AttributeDraft} {s s' : ByteStream} (h : decode s = .ok (f, s')) :
    f.Fits ∧ s.Advances f.layout s' := by
  obtain ⟨nameIndex, between, hname, h⟩ := Decoder.bind_eq_ok_iff.1 h
  obtain ⟨length, between', hlength, h⟩ := Decoder.bind_eq_ok_iff.1 h
  obtain ⟨content, last, hcontent, h⟩ := Decoder.bind_eq_ok_iff.1 h
  obtain ⟨rfl, rfl⟩ := Decoder.pure_eq_ok_iff.1 h
  obtain ⟨heq, htaken⟩ := Decoder.take_eq_ok hcontent
  have hlt : length.toNat < 4294967296 := length.toNat_lt
  refine ⟨show content.length < 4294967296 by omega, ?_⟩
  rw [layout, heq, UInt32.ofNat_toNat]
  exact ((Takes.u2 _ _ _ hname).append (Takes.u4 _ _ _ hlength)).append htaken

theorem takes : Takes decode layout := fun _ _ _ h => (fits_of_decode h).2

theorem gives_fits : Gives decode Fits := fun _ _ _ h => (fits_of_decode h).1

end AttributeDraft

/-- An attribute is its frame, judged. -/
theorem Attribute.decode_eq (pool : Option ConstantPool) :
    decode pool = AttributeDraft.decode.judged fun f => ofBlock pool f.nameIndex f.content := by
  simp only [decode, AttributeDraft.decode, Decoder.judged, bind_assoc, pure_bind]
  refine bind_congr fun nameIndex => bind_congr fun length => bind_congr fun content => ?_
  rcases ofBlock pool nameIndex content with e | a
  · rfl
  · rfl

/-! ## Blocks -/

/-- What may be wrong with the block of a kind of attribute. -/
inductive AttributeKind.Fault : AttributeKind → ClassFileError → Prop
  | malformed (kind : AttributeKind) : Fault kind (.malformedAttribute kind)
  | flags {bits : UInt16} : bits &&& FlagKind.ofInnerClass.mask ≠ bits →
    Fault .innerClasses (.badFlags .ofInnerClass bits)

/-- The two-byte number at an offset. -/
def numberAt (content : Bytes) (offset : Nat) : UInt16 :=
  UInt16.ofNat (bigEndian ((content.drop offset).take 2))

/-- Whether a block has the form of a kind of attribute. An entry of `InnerClasses` is eight bytes
long, and its flags are the last two of them. -/
def AttributeKind.Admits (content : Bytes) : AttributeKind → Prop
  | constantValue => content.length = 2
  | enclosingMethod => content.length = 4
  | innerClasses =>
    content.length = 2 + 8 * (numberAt content 0).toNat
      ∧ ∀ k < (numberAt content 0).toNat,
        numberAt content (8 + 8 * k) &&& FlagKind.ofInnerClass.mask = numberAt content (8 + 8 * k)

theorem numberAt_of_drop {content back : Bytes} {offset : Nat} {n : UInt16}
    (h : content.drop offset = Layout.u2 n ++ back) : numberAt content offset = n := by
  have hn : n.toNat < Nat.pow 256 2 := n.toNat_lt
  have htake : (Layout.u2 n ++ back).take 2 = Layout.u2 n := by
    rw [← Layout.length_u2 n, List.take_left]
  rw [numberAt, h, htake, Layout.u2, bigEndian_number hn, UInt16.ofNat_toNat]

theorem FlagSet.takes (kind : FlagKind) :
    Takes (FlagSet.decode kind) fun flags => Layout.u2 flags.bits := by
  intro s flags s' h
  obtain ⟨bits, between, hbits, h⟩ := Decoder.bind_eq_ok_iff.1 h
  have htaken := Takes.u2 _ _ _ hbits
  unfold ofBits? at h
  by_cases hdeclared : bits &&& kind.mask = bits
  · rw [dif_pos hdeclared] at h
    obtain ⟨rfl, rfl⟩ := Decoder.pure_eq_ok_iff.1 h
    exact htaken
  · rw [dif_neg hdeclared] at h
    contradiction

theorem FlagSet.failsBy (kind : FlagKind) :
    FailsBy (FlagSet.decode kind) fun e =>
      ∃ bits, bits &&& kind.mask ≠ bits ∧ e = .badFlags kind bits := by
  refine FailsBy.u2.bind fun bits => ?_
  unfold ofBits?
  by_cases hdeclared : bits &&& kind.mask = bits
  · rw [dif_pos hdeclared]
    exact .pure _
  · rw [dif_neg hdeclared]
    exact .fail ⟨bits, hdeclared, rfl⟩

namespace InnerClass

theorem takes : Takes decode layout := by
  intro s entry s' h
  obtain ⟨innerIndex, s₁, hinner, h⟩ := Decoder.bind_eq_ok_iff.1 h
  obtain ⟨outerIndex, s₂, houter, h⟩ := Decoder.bind_eq_ok_iff.1 h
  obtain ⟨nameIndex, s₃, hname, h⟩ := Decoder.bind_eq_ok_iff.1 h
  obtain ⟨flags, s₄, hflags, h⟩ := Decoder.bind_eq_ok_iff.1 h
  obtain ⟨rfl, rfl⟩ := Decoder.pure_eq_ok_iff.1 h
  have hindices := ((Takes.u2 _ _ _ hinner).append (Takes.u2 _ _ _ houter)).append
    (Takes.u2 _ _ _ hname)
  exact hindices.append (FlagSet.takes .ofInnerClass _ _ _ hflags)

theorem failsBy : FailsBy decode (AttributeKind.Fault .innerClasses) := by
  refine FailsBy.u2.bind fun _ => FailsBy.u2.bind fun _ => FailsBy.u2.bind fun _ => ?_
  refine FailsBy.bind_pure ?_ _
  intro s e he
  rcases FlagSet.failsBy .ofInnerClass s e he with hended | ⟨bits, hbits, rfl⟩
  · exact .inl hended
  · exact .inr (.flags hbits)

/-- Entries are of one length, so each is found by its number. -/
theorem drop_flatMap_layout (entries : List InnerClass) (k : Nat) :
    (entries.flatMap layout).drop (8 * k) = (entries.drop k).flatMap layout := by
  induction k generalizing entries with
  | zero => rfl
  | succ k ih =>
    rcases entries with _ | ⟨entry, entries⟩
    · rw [List.flatMap_nil, List.drop_nil, List.drop_nil, List.flatMap_nil]
    · have hstep : 8 * (k + 1) = entry.layout.length + 8 * k := by
        rw [length_layout]
        omega
      rw [List.flatMap_cons, hstep, List.drop_length_add_append, ih, List.drop_succ_cons]

/-- The flags of an entry are its last two bytes, and the count stands before all entries. -/
theorem numberAt_counted {entries : List InnerClass} {k : Nat} (hk : k < entries.length) :
    numberAt (Layout.counted layout entries) (8 + 8 * k) = entries[k].flags.bits := by
  have hsplit : 8 + 8 * k = (Layout.u2 (UInt16.ofNat entries.length)).length + 8 * k + 6 := by
    rw [Layout.length_u2]
    omega
  have hindices : (Layout.u2 entries[k].innerIndex ++ Layout.u2 entries[k].outerIndex
      ++ Layout.u2 entries[k].nameIndex).length = 6 := by
    simp only [List.length_append, Layout.length_u2]
  have hdrop : (Layout.counted layout entries).drop (8 + 8 * k)
      = Layout.u2 entries[k].flags.bits ++ (entries.drop (k + 1)).flatMap layout := by
    rw [hsplit, ← List.drop_drop, Layout.counted, List.drop_length_add_append, drop_flatMap_layout,
      List.drop_eq_getElem_cons hk, List.flatMap_cons, layout, List.append_assoc, ← hindices,
      List.drop_left]
  exact numberAt_of_drop hdrop

end InnerClass

namespace AttributeBody

theorem takes_kind (kind : AttributeKind) : Takes (decodeKind kind) block := by
  intro s body s' h
  rcases kind with _ | _ | _
  · obtain ⟨index, between, hindex, h⟩ := Decoder.bind_eq_ok_iff.1 h
    obtain ⟨rfl, rfl⟩ := Decoder.pure_eq_ok_iff.1 h
    exact Takes.u2 _ _ _ hindex
  · obtain ⟨entries, between, hentries, h⟩ := Decoder.bind_eq_ok_iff.1 h
    obtain ⟨rfl, rfl⟩ := Decoder.pure_eq_ok_iff.1 h
    exact (Takes.counted InnerClass.takes hentries).2
  · obtain ⟨classIndex, between, hclass, h⟩ := Decoder.bind_eq_ok_iff.1 h
    obtain ⟨methodIndex, between', hmethod, h⟩ := Decoder.bind_eq_ok_iff.1 h
    obtain ⟨rfl, rfl⟩ := Decoder.pure_eq_ok_iff.1 h
    exact (Takes.u2 _ _ _ hclass).append (Takes.u2 _ _ _ hmethod)

theorem gives_kind : ∀ kind : AttributeKind,
    Gives (decodeKind kind) fun body =>
      body.kind? = some kind ∧ ∀ entries, body = innerClasses entries → entries.length < 65536
  | .constantValue => .bind_pure fun _ => ⟨rfl, nofun⟩
  | .innerClasses => by
    intro s body s' h
    obtain ⟨entries, between, hentries, h⟩ := Decoder.bind_eq_ok_iff.1 h
    obtain ⟨rfl, rfl⟩ := Decoder.pure_eq_ok_iff.1 h
    refine ⟨rfl, ?_⟩
    rintro _ ⟨⟩
    exact (Takes.counted InnerClass.takes hentries).1
  | .enclosingMethod => .u2_u2 fun _ _ => ⟨rfl, nofun⟩

theorem failsBy_kind : ∀ kind : AttributeKind, FailsBy (decodeKind kind) kind.Fault
  | .constantValue => FailsBy.u2.bind_pure constantValue
  | .innerClasses => InnerClass.failsBy.counted.bind_pure innerClasses
  | .enclosingMethod => FailsBy.u2.bind fun classIndex =>
    FailsBy.u2.bind_pure (enclosingMethod classIndex)

/-- A body was decoded when the position says that all of the block was read. -/
theorem ofBlock_eq_ok {kind : AttributeKind} {content : Bytes} {body : AttributeBody}
    (h : ofBlock kind content = .ok body) :
    ∃ s, decodeKind kind ⟨content, 0⟩ = .ok (body, s) ∧ s.position = content.length := by
  unfold ofBlock at h
  split at h
  · rename_i found s hfound
    split at h
    · rename_i hposition
      obtain rfl := Except.ok.inj h
      exact ⟨s, hfound, hposition⟩
    · contradiction
  all_goals contradiction

/-- A block that cannot be decoded is what the error blames. -/
theorem fault_of_ofBlock {kind : AttributeKind} {content : Bytes} {e : ClassFileError}
    (h : ofBlock kind content = .error e) : kind.Fault e := by
  unfold ofBlock at h
  split at h
  · split at h
    · contradiction
    · rw [← Except.error.inj h]
      exact .malformed kind
  · rw [← Except.error.inj h]
    exact .malformed kind
  · rename_i e' hnot he'
    rw [← Except.error.inj h]
    rcases failsBy_kind kind _ _ he' with ⟨what, rfl⟩ | hfault
    · exact absurd rfl (hnot what)
    · exact hfault

/-- A body that was decoded lays out to its block. -/
theorem block_of_ofBlock {kind : AttributeKind} {content : Bytes} {body : AttributeBody}
    (h : ofBlock kind content = .ok body) : body.block = content := by
  obtain ⟨s, hbody, hposition⟩ := ofBlock_eq_ok h
  obtain ⟨hrest, hcounted⟩ := takes_kind kind _ _ _ hbody
  dsimp only at hrest hcounted
  -- what was taken is as long as the block, so nothing is left of it
  have hlength : body.block.length = content.length := by omega
  have hnone : s.rest = [] := by
    rw [hrest, List.length_append] at hlength
    exact List.length_eq_zero_iff.1 (by omega)
  rw [hrest, hnone, List.append_nil]

/-- A block that was decoded has the form of its kind. -/
theorem admits_of_ofBlock {kind : AttributeKind} {content : Bytes} {body : AttributeBody}
    (h : ofBlock kind content = .ok body) : kind.Admits content := by
  obtain ⟨s, hbody, -⟩ := ofBlock_eq_ok h
  obtain ⟨hkind, hentries⟩ := gives_kind kind _ _ _ hbody
  obtain rfl := block_of_ofBlock h
  rcases body with index | entries | ⟨classIndex, methodIndex⟩ | content
  · obtain rfl := Option.some.inj hkind
    exact Layout.length_u2 index
  · obtain rfl := Option.some.inj hkind
    have hcount : numberAt (Layout.counted InnerClass.layout entries) 0
        = UInt16.ofNat entries.length := numberAt_of_drop rfl
    have hlength : (UInt16.ofNat entries.length).toNat = entries.length :=
      UInt16.toNat_ofNat_of_lt' (hentries entries rfl)
    show _ ∧ _
    rw [block, hcount, hlength]
    refine ⟨?_, ?_⟩
    · exact InnerClass.length_counted_layout entries
    · intro k hk
      rw [InnerClass.numberAt_counted hk]
      exact entries[k].flags.declared
  · obtain rfl := Option.some.inj hkind
    show (Layout.u2 classIndex ++ Layout.u2 methodIndex).length = 4
    rw [List.length_append, Layout.length_u2, Layout.length_u2]
  · contradiction

end AttributeBody

namespace Attribute

variable {pool : ConstantPool} {f : AttributeDraft}

/-- A judged frame gives what its bytes denote. -/
theorem ofBlock_eq_ok_iff {a : Attribute} (hf : f.Fits) :
    ofBlock (some pool) f.nameIndex f.content = .ok a ↔ f.Denotes pool a := by
  constructor
  · intro h
    unfold ofBlock at h
    rcases hname : pool.textAt f.nameIndex with e | name
    · simp only [hname] at h
      contradiction
    rcases hkind : AttributeKind.ofName? name with _ | kind
    · -- under a name that is not decoded the block is the body
      simp only [hname, hkind] at h
      obtain rfl := Except.ok.inj h
      exact ⟨⟨hname, hkind.symm, nofun, hf⟩, rfl⟩
    rcases hbody : AttributeBody.ofBlock kind f.content with e | body
    · simp only [hname, hkind, hbody] at h
      contradiction
    · simp only [hname, hkind, hbody] at h
      obtain rfl := Except.ok.inj h
      obtain ⟨s, hread, -⟩ := AttributeBody.ofBlock_eq_ok hbody
      obtain ⟨hbodyKind, hentries⟩ := AttributeBody.gives_kind kind _ _ _ hread
      have hblock := AttributeBody.block_of_ofBlock hbody
      -- the body lays out to the block, so its length is one that was written
      refine ⟨⟨hname, hbodyKind.trans hkind.symm, hentries, ?_⟩, ?_⟩
      · show body.block.length < 4294967296
        rw [hblock]
        exact hf
      · rw [draft, hblock]
  · rintro ⟨hwellFormed, rfl⟩
    exact ofBlock_block hwellFormed

theorem ofBlock_of_kind {kind : AttributeKind} (hname : pool.textAt f.nameIndex = .ok kind.name) :
    ofBlock (some pool) f.nameIndex f.content
      = (AttributeBody.ofBlock kind f.content).map fun body => ⟨f.nameIndex, kind.name, body⟩ := by
  unfold ofBlock
  simp only [hname, AttributeKind.ofName?_name]
  rcases AttributeBody.ofBlock kind f.content with e | body
  · rfl
  · rfl

/-- A block under the name of a kind that has not its form. -/
theorem ofBlock_eq_error {kind : AttributeKind} (hname : pool.textAt f.nameIndex = .ok kind.name)
    (h : ¬ kind.Admits f.content) :
    ∃ e, kind.Fault e ∧ ofBlock (some pool) f.nameIndex f.content = .error e := by
  rw [ofBlock_of_kind hname]
  rcases hbody : AttributeBody.ofBlock kind f.content with e | body
  · exact ⟨e, AttributeBody.fault_of_ofBlock hbody, rfl⟩
  · exact absurd (AttributeBody.admits_of_ofBlock hbody) h

/-- So a block that was taken under the name of a kind has its form. -/
theorem admits_of_ofBlock {a : Attribute}
    (h : ofBlock (some pool) f.nameIndex f.content = .ok a) (kind : AttributeKind)
    (hname : pool.textAt f.nameIndex = .ok kind.name) : kind.Admits f.content := by
  by_contra hnot
  obtain ⟨e, -, he⟩ := ofBlock_eq_error hname hnot
  rw [he] at h
  contradiction

end Attribute

/-! ## Tables -/

namespace AttributeTable

variable {pool : ConstantPool}

theorem decode_eq (pool : Option ConstantPool) :
    decode pool = Decoder.counted
      (AttributeDraft.decode.judged fun f => Attribute.ofBlock pool f.nameIndex f.content) := by
  rw [decode, Attribute.decode_eq]

/-- The bodies under a name, laid out, are the blocks under that name. -/
theorem named_of_denotes {frames : List AttributeDraft} {table : AttributeTable}
    (h : List.Forall₂ (AttributeDraft.Denotes pool) frames table) (name : String) :
    (table.named name).map AttributeBody.block
      = (frames.filter fun f => pool.textAt f.nameIndex = .ok name).map AttributeDraft.content := by
  unfold named
  induction h with
  | nil => rfl
  | @cons f a frames table ha hothers ih =>
    obtain ⟨hwellFormed, rfl⟩ := ha
    have hname : pool.textAt a.draft.nameIndex = .ok a.name := hwellFormed.name_eq
    rw [List.filter_cons, List.filter_cons, hname]
    by_cases heq : a.name = name
    · rw [if_pos (beq_iff_eq.2 heq), if_pos (by rw [heq]; exact decide_eq_true rfl), List.map_cons,
        List.map_cons, List.map_cons, ih]
      rfl
    · rw [if_neg (by rwa [beq_iff_eq]), if_neg (by rwa [decide_eq_true_iff, Except.ok.injEq]), ih]

/-- **A table is framed by its lengths.** The bytes of a table that is read are a count and as many
frames, and no more, and the position moves on by their lengths; each attribute is what its own
frame denotes, in file order. A block under the name of a decoded kind has the form of that kind, or
the whole table fails with an error that blames the block, as soon as the frames before it are done.
Without a pool the same frames are taken from the same bytes, and every block is kept under its
number. -/
theorem framed_by_lengths (pool : ConstantPool) :
    (∀ (s : ByteStream) (table : AttributeTable) (s' : ByteStream),
      decode (some pool) s = .ok (table, s') →
      ∃ frames : List AttributeDraft,
        frames.length < 65536 ∧ (∀ f ∈ frames, f.Fits)
        ∧ s.rest = Layout.counted AttributeDraft.layout frames ++ s'.rest
        ∧ s.rest.length = 2 + (frames.map fun f => 6 + f.content.length).sum + s'.rest.length
        ∧ s'.position = s.position + 2 + (frames.map fun f => 6 + f.content.length).sum
        ∧ table.length = frames.length
        ∧ List.Forall₂ (AttributeDraft.Denotes pool) frames table
        ∧ (∀ name, (table.named name).map AttributeBody.block
          = (frames.filter fun f => pool.textAt f.nameIndex = .ok name).map AttributeDraft.content)
        ∧ (∀ f ∈ frames, ∀ kind : AttributeKind, pool.textAt f.nameIndex = .ok kind.name →
          kind.Admits f.content)
        ∧ decode none s = .ok (frames.map AttributeDraft.numbered, s'))
    ∧ ∀ (count : UInt16) (front : List AttributeDraft) (f : AttributeDraft) (rest : Bytes) (p : Nat)
        (kind : AttributeKind), front.length < count.toNat →
        (∀ g ∈ front, g.Fits ∧ ∃ a, g.Denotes pool a) → f.Fits →
        pool.textAt f.nameIndex = .ok kind.name → ¬ kind.Admits f.content →
        ∃ e, kind.Fault e
          ∧ decode (some pool)
            ⟨Layout.u2 count ++ (front.flatMap AttributeDraft.layout ++ (f.layout ++ rest)), p⟩
            = .error e := by
  constructor
  · -- the frames come first, and what the attributes are is said of one frame at a time
    intro s table s' h
    rw [decode_eq] at h
    obtain ⟨frames, hframes, hjudged⟩ := Decoder.counted_judged_eq_ok_iff.1 h
    obtain ⟨hlt, hrest, hposition⟩ := Takes.counted AttributeDraft.takes hframes
    have hfits := AttributeDraft.gives_fits.counted _ _ _ hframes
    have hdenotes : List.Forall₂ (AttributeDraft.Denotes pool) frames table := by
      have hboth := (List.forall₂_and_left frames table).2 ⟨hfits, hjudged⟩
      exact hboth.imp fun f a ⟨hf, ha⟩ => (Attribute.ofBlock_eq_ok_iff hf).1 ha
    have hlength : (Layout.counted AttributeDraft.layout frames).length
        = 2 + (frames.map fun f => 6 + f.content.length).sum := by
      rw [Layout.counted, List.length_append, Layout.length_u2, List.length_flatMap]
      simp only [AttributeDraft.length_layout]
    refine ⟨frames, hlt, hfits, hrest, ?_, ?_, hdenotes.length_eq.symm, hdenotes,
      named_of_denotes hdenotes, ?_, ?_⟩
    · rw [hrest, List.length_append, hlength]
    · rw [hposition, hlength, Nat.add_assoc]
    · intro f hf kind hname
      obtain ⟨i, hi, rfl⟩ := List.mem_iff_getElem.1 hf
      have hi' : i < table.length := hjudged.length_eq ▸ hi
      exact Attribute.admits_of_ofBlock (hjudged.get hi hi') kind hname
    · -- without names no frame is judged wrong
      rw [decode_eq]
      refine Decoder.counted_judged_eq_ok_iff.2 ⟨frames, hframes, ?_⟩
      rw [List.forall₂_map_right_iff, List.forall₂_same]
      exact fun f hf => rfl
  · intro count front f rest p kind hcount hfront hf hname hnot
    obtain ⟨e, hfault, he⟩ := Attribute.ofBlock_eq_error hname hnot
    refine ⟨e, hfault, ?_⟩
    rw [decode_eq, Decoder.counted, Decoder.bind_apply, Reads.u2]
    refine Decoder.times_judged_eq_error ?_ (AttributeDraft.reads hf) he hcount
    intro g hg
    obtain ⟨hfits, a, ha⟩ := hfront g hg
    exact ⟨AttributeDraft.reads hfits, a, (Attribute.ofBlock_eq_ok_iff hfits).2 ha⟩

/-- Two attributes of one name around one that is decoded, in the pool of the specimen. -/
def around : AttributeTable :=
  [⟨7, "Code", .raw [0xca]⟩, ⟨6, "InnerClasses", .innerClasses [⟨2, 2, 1, ⟨0x2608, by decide⟩⟩]⟩,
    ⟨7, "Code", .raw []⟩]

theorem wellFormed_around : around.WellFormed ClassFile.specimen.pool := by
  refine ⟨by decide, ?_⟩
  intro a ha
  rcases List.mem_cons.1 ha with rfl | ha
  · exact ⟨ConstantPool.textAt_eq rfl, rfl, nofun, by decide⟩
  rcases List.mem_cons.1 ha with rfl | ha
  · refine ⟨ConstantPool.textAt_eq rfl, rfl, ?_, by decide⟩
    rintro _ ⟨⟩
    decide
  · obtain rfl := List.mem_singleton.1 ha
    exact ⟨ConstantPool.textAt_eq rfl, rfl, nofun, by decide⟩

/-- The table is read with and without its pool. Of an `InnerClasses` attribute that counts one
entry and holds none nothing is read. -/
theorem framed_by_lengths_of_around :
    decode (some ClassFile.specimen.pool)
        ⟨Layout.counted AttributeDraft.layout (around.map Attribute.draft) ++ [0xff], 5⟩
      = .ok (around, ⟨[0xff], 36⟩)
    ∧ (∃ frames : List AttributeDraft,
      decode none
          ⟨Layout.counted AttributeDraft.layout (around.map Attribute.draft) ++ [0xff], 5⟩
        = .ok (frames.map AttributeDraft.numbered, ⟨[0xff], 36⟩))
    ∧ ¬ AttributeKind.Admits [0, 1] .innerClasses
    ∧ ∃ e, AttributeKind.Fault .innerClasses e
      ∧ decode (some ClassFile.specimen.pool)
          ⟨Layout.u2 2 ++ ([⟨7, [0xca]⟩].flatMap AttributeDraft.layout
            ++ (AttributeDraft.layout ⟨6, [0, 1]⟩ ++ [])), 0⟩
        = .error e := by
  have hlength : (Layout.counted AttributeDraft.layout
      (around.map Attribute.draft)).length = 31 := by decide
  have hread := reads wellFormed_around [0xff] 5
  rw [hlength] at hread
  have hshort : ¬ AttributeKind.Admits [0, 1] .innerClasses := by
    rintro ⟨hlength, -⟩
    revert hlength
    decide
  obtain ⟨frames, -, -, -, -, -, -, -, -, -, hnone⟩ :=
    (framed_by_lengths ClassFile.specimen.pool).1 _ _ _ hread
  refine ⟨hread, ⟨frames, hnone⟩, hshort, ?_⟩
  refine (framed_by_lengths ClassFile.specimen.pool).2 2 [⟨7, [0xca]⟩] ⟨6, [0, 1]⟩ [] 0
    .innerClasses (by decide) ?_ (show 2 < 4294967296 by decide) (ConstantPool.textAt_eq rfl) hshort
  intro g hg
  obtain rfl := List.mem_singleton.1 hg
  refine ⟨show 1 < 4294967296 by decide, ⟨7, "Code", .raw [0xca]⟩, ?_, rfl⟩
  exact ⟨ConstantPool.textAt_eq rfl, rfl, nofun, by decide⟩

end AttributeTable

end NativeHeaders
