import Mathlib.Data.List.Chain
import NativeHeaders.ClassFile.Basic
import NativeHeaders.Proofs.ClassFile.Reads
import NativeHeaders.Proofs.Text.ModifiedUtf8
import NativeHeaders.Proofs.Text.Units

/-!
# A class file is read as it is laid out

A class file is well-formed when it can be laid out: counts and lengths fit their fields, the slot
after a wide entry is unusable and no other slot is, and every attribute has the name that its
index stands for and the body that its name asks for. Of a well-formed class file the decoder gives
back every part (`ofBytes_layout`), and its position is where the layout ends.

The argument follows the layout. One lemma for each part says that its decoder reads its bytes, and
the lemma of the whole puts them in a row. Only the slots of the pool need an induction of their
own: a wide entry takes two of them at once.
-/

set_option autoImplicit false

namespace NativeHeaders

open Decoder (Reads)

/-! ## Entries -/

/-- Whether the text of an entry is short enough for its length to be written. -/
def PoolEntry.fits : PoolEntry → Bool
  | utf8 text => decide ((Text.ModifiedUtf8.encode text).length ≤ 65535)
  | _ => true

namespace PoolEntry

/-- An entry is read after its tag. -/
theorem reads_body : ∀ {entry : PoolEntry}, entry ≠ unusable → entry.fits →
    Reads (decodeBody entry.tag) entry.bodyLayout entry
  | utf8 text, _, hfits => by
    have hlength : (UInt16.ofNat (Text.ModifiedUtf8.encode text).length).toNat
        = (Text.ModifiedUtf8.encode text).length :=
      UInt16.toNat_ofNat_of_lt' (Nat.lt_succ_of_le (of_decide_eq_true hfits))
    refine (Reads.u2 _).bind ?_
    rw [hlength]
    refine (Reads.block _).bind_last ?_
    rw [Text.ModifiedUtf8.decode?_encode]
    exact .pure _
  | integer value, _, _ => (Reads.u4 value.toUInt32).bind_pure fun n => integer n.toInt32
  | float bits, _, _ => (Reads.u4 bits).bind_pure float
  | long value, _, _ => (Reads.u8 value.toUInt64).bind_pure fun n => long n.toInt64
  | double bits, _, _ => (Reads.u8 bits).bind_pure double
  | classRef nameIndex, _, _ => (Reads.u2 nameIndex).bind_pure classRef
  | string stringIndex, _, _ => (Reads.u2 stringIndex).bind_pure string
  | fieldRef classIndex nameAndTypeIndex, _, _ => .u2_u2 fieldRef classIndex nameAndTypeIndex
  | methodRef classIndex nameAndTypeIndex, _, _ => .u2_u2 methodRef classIndex nameAndTypeIndex
  | interfaceMethodRef classIndex nameAndTypeIndex, _, _ =>
    .u2_u2 interfaceMethodRef classIndex nameAndTypeIndex
  | nameAndType nameIndex descriptorIndex, _, _ => .u2_u2 nameAndType nameIndex descriptorIndex
  | methodHandle kind referenceIndex, _, _ => by
    refine (Reads.u1 kind.code).bind ?_
    rw [ReferenceKind.ofCode?_code]
    exact (Reads.u2 referenceIndex).bind_pure (methodHandle kind)
  | methodType descriptorIndex, _, _ => (Reads.u2 descriptorIndex).bind_pure methodType
  | dynamic bootstrapIndex nameAndTypeIndex, _, _ => .u2_u2 dynamic bootstrapIndex nameAndTypeIndex
  | invokeDynamic bootstrapIndex nameAndTypeIndex, _, _ =>
    .u2_u2 invokeDynamic bootstrapIndex nameAndTypeIndex
  | module nameIndex, _, _ => (Reads.u2 nameIndex).bind_pure module
  | package nameIndex, _, _ => (Reads.u2 nameIndex).bind_pure package
  | unusable, h, _ => absurd rfl h

/-- An entry is read as it is laid out. -/
theorem reads {entry : PoolEntry} (h : entry ≠ unusable) (hfits : entry.fits) :
    Reads decode entry.layout entry := by
  rw [layout, if_neg h]
  exact (Reads.u1 entry.tag).bind (reads_body h hfits)

end PoolEntry

/-! ## Slots -/

namespace ConstantPool

/-- Whether a slot is unusable is up to the entry in the slot before it. -/
def Follows (entry next : PoolEntry) : Prop := entry.isWide ↔ next = .unusable

instance : DecidableRel Follows := fun entry next =>
  inferInstanceAs (Decidable (entry.isWide ↔ next = .unusable))

/-- Whether the unusable slots are those after wide entries. A wide entry in the last slot has none
after it. -/
def Paired (slots : List PoolEntry) : Prop :=
  slots.head? ≠ some .unusable ∧ slots.IsChain Follows

instance : DecidablePred Paired := fun slots =>
  inferInstanceAs (Decidable (slots.head? ≠ some .unusable ∧ slots.IsChain Follows))

/-- Whether a constant pool can be laid out. -/
structure WellFormed (pool : ConstantPool) : Prop where
  length_le : pool.slots.length ≤ 65534
  paired : Paired pool.slots
  fits : ∀ entry ∈ pool.slots, entry.fits

theorem Paired.head_ne {entry : PoolEntry} {slots : List PoolEntry}
    (h : Paired (entry :: slots)) : entry ≠ .unusable := fun heq => h.1 (congrArg some heq)

/-- After a slot that is not wide the next entry begins. -/
theorem paired_of_isChain {entry : PoolEntry} {slots : List PoolEntry}
    (h : (entry :: slots).IsChain Follows) (hwide : ¬ entry.isWide) : Paired slots := by
  refine ⟨?_, h.tail⟩
  rcases slots with _ | ⟨next, slots⟩
  · exact nofun
  · intro hnext
    have hfollows : Follows entry next := (List.isChain_cons_cons.1 h).1
    exact hwide (hfollows.2 (Option.some.inj hnext))

/-- The slots are read as they are laid out. The induction takes a wide entry together with the
slot after it, which has no bytes. -/
theorem reads_slots : ∀ {slots : List PoolEntry}, Paired slots → (∀ entry ∈ slots, entry.fits) →
    Reads (decodeSlots slots.length) (slots.flatMap PoolEntry.layout) slots
  | [], _, _ => .pure []
  | [entry], h, hfits => by
    have hentry := PoolEntry.reads h.head_ne (hfits entry List.mem_cons_self)
    rw [List.flatMap_singleton]
    exact hentry.bind_pure ([·])
  | entry :: next :: slots, h, hfits => by
    have hentry := PoolEntry.reads h.head_ne (hfits entry List.mem_cons_self)
    obtain ⟨hfollows, hchain⟩ := List.isChain_cons_cons.1 h.2
    refine hentry.bind ?_
    by_cases hwide : entry.isWide
    · -- both slots are done, and after an unusable one an entry begins
      obtain rfl : next = .unusable := hfollows.1 hwide
      have hothers := reads_slots (paired_of_isChain hchain nofun) fun e he =>
        hfits e (List.mem_cons_of_mem _ (List.mem_cons_of_mem _ he))
      rw [if_pos hwide]
      exact hothers.bind_pure fun others => entry :: .unusable :: others
    · have hothers := reads_slots (paired_of_isChain h.2 hwide) fun e he =>
        hfits e (List.mem_cons_of_mem _ he)
      rw [if_neg hwide]
      exact hothers.bind_pure (entry :: ·)

theorem reads {pool : ConstantPool} (h : pool.WellFormed) : Reads decode pool.layout pool := by
  have hlength := h.length_le
  have hcount : (UInt16.ofNat (pool.slots.length + 1)).toNat - 1 = pool.slots.length := by
    rw [UInt16.toNat_ofNat_of_lt' (show pool.slots.length + 1 < 65536 by omega)]
    omega
  refine (Reads.u2 _).bind ?_
  rw [hcount]
  exact (reads_slots h.paired h.fits).bind_pure ConstantPool.mk

end ConstantPool

/-- What is looked up under the index of an entry for some text is that text. -/
theorem ConstantPool.textAt_eq {pool : ConstantPool} {index : UInt16} {text : String}
    (h : pool.entryAt index = .ok (.utf8 (Text.unitsOf text))) : pool.textAt index = .ok text := by
  have hunits : pool.unitsAt index = .ok (Text.unitsOf text) := by
    rw [unitsAt, h]
    rfl
  rw [textAt, hunits]
  dsimp only [bind, Except.bind]
  rw [Text.string?_unitsOf]
  rfl

/-! ## Attributes -/

theorem FlagSet.reads {kind : FlagKind} (flags : FlagSet kind) :
    Reads (FlagSet.decode kind) (Layout.u2 flags.bits) flags := by
  refine (Reads.u2 flags.bits).bind_last ?_
  rw [FlagSet.ofBits?_bits]
  exact .pure flags

theorem InnerClass.reads (entry : InnerClass) : Reads InnerClass.decode entry.layout entry := by
  rw [InnerClass.layout, List.append_assoc, List.append_assoc]
  refine (Reads.u2 entry.innerIndex).bind ?_
  refine (Reads.u2 entry.outerIndex).bind ?_
  refine (Reads.u2 entry.nameIndex).bind ?_
  exact entry.flags.reads.bind_pure fun flags => { entry with flags }

namespace AttributeBody

/-- The kind of attribute that holds a body; a block that is kept as it is belongs to none. -/
def kind? : AttributeBody → Option AttributeKind
  | constantValue _ => some .constantValue
  | innerClasses _ => some .innerClasses
  | enclosingMethod _ _ => some .enclosingMethod
  | raw _ => none

/-- Whether the counts and the length of a body can be written. -/
def Fits (body : AttributeBody) : Prop :=
  (∀ entries, body = innerClasses entries → entries.length < 65536) ∧ body.block.length < 4294967296

theorem raw_block : ∀ {body : AttributeBody}, body.kind? = none → raw body.block = body
  | raw _, _ => rfl

theorem reads_block : ∀ {body : AttributeBody} {kind : AttributeKind}, body.Fits →
    body.kind? = some kind → Reads (decodeKind kind) body.block body
  | constantValue index, .constantValue, _, _ => (Reads.u2 index).bind_pure constantValue
  | innerClasses entries, .innerClasses, hfits, _ => by
    have hentries := Reads.counted (hfits.1 entries rfl) fun entry _ => InnerClass.reads entry
    exact hentries.bind_pure innerClasses
  | enclosingMethod classIndex methodIndex, .enclosingMethod, _, _ =>
    .u2_u2 enclosingMethod classIndex methodIndex

/-- A block that holds just a body spells that body. -/
theorem ofBlock_block {body : AttributeBody} {kind : AttributeKind} (hfits : body.Fits)
    (hkind : body.kind? = some kind) : ofBlock kind body.block = .ok body := by
  have h := reads_block hfits hkind [] 0
  rw [List.append_nil] at h
  rw [ofBlock, h]
  exact if_pos (Nat.zero_add _)

end AttributeBody

namespace Attribute

/-- Whether an attribute can be laid out in a class file with a constant pool. -/
structure WellFormed (pool : ConstantPool) (a : Attribute) : Prop where
  name_eq : pool.textAt a.nameIndex = .ok a.name
  kind_eq : a.body.kind? = AttributeKind.ofName? a.name
  fits : a.body.Fits

/-- The name decides how the block is taken, and that is how it was laid out. -/
theorem ofBlock_block {pool : ConstantPool} {a : Attribute} (h : a.WellFormed pool) :
    ofBlock (some pool) a.nameIndex a.body.block = .ok a := by
  obtain ⟨nameIndex, name, body⟩ := a
  obtain ⟨hname, hkind, hfits⟩ := h
  dsimp only at hname hkind hfits ⊢
  rw [ofBlock]
  simp only [hname, ← hkind]
  rcases hk : body.kind? with _ | kind
  · simp only [AttributeBody.raw_block hk]
  · simp only [AttributeBody.ofBlock_block hfits hk]

theorem reads {pool : ConstantPool} {a : Attribute} (h : a.WellFormed pool) :
    Reads (decode (some pool)) a.draft.layout a := by
  have hlength : (UInt32.ofNat a.body.block.length).toNat = a.body.block.length :=
    UInt32.toNat_ofNat_of_lt' h.fits.2
  rw [AttributeDraft.layout, List.append_assoc]
  refine (Reads.u2 a.nameIndex).bind ?_
  refine (Reads.u4 _).bind ?_
  rw [draft, hlength]
  refine (Reads.block a.body.block).bind_last ?_
  rw [ofBlock_block h]
  exact .pure a

end Attribute

namespace AttributeTable

/-- Whether a table of attributes can be laid out. -/
structure WellFormed (pool : ConstantPool) (table : AttributeTable) : Prop where
  length_lt : table.length < 65536
  attributes : ∀ a ∈ table, a.WellFormed pool

theorem reads {pool : ConstantPool} {table : AttributeTable} (h : table.WellFormed pool) :
    Reads (decode (some pool)) (Layout.counted AttributeDraft.layout (table.map Attribute.draft))
      table := by
  rw [Layout.counted_map]
  exact .counted h.length_lt fun a ha => Attribute.reads (h.attributes a ha)

end AttributeTable

/-! ## Members and class files -/

theorem Member.reads {kind : FlagKind} {pool : ConstantPool} {m : Member kind}
    (h : m.attributes.WellFormed pool) : Reads (decode kind (some pool)) m.draft.layout m := by
  rw [MemberDraft.layout, List.append_assoc, List.append_assoc]
  refine m.flags.reads.bind ?_
  refine (Reads.u2 m.nameIndex).bind ?_
  refine (Reads.u2 m.descriptorIndex).bind ?_
  exact (AttributeTable.reads h).bind_pure (Member.mk m.flags m.nameIndex m.descriptorIndex)

namespace ClassFile

/-- Whether a class file can be laid out. -/
structure WellFormed (file : ClassFile) : Prop where
  pool : file.pool.WellFormed
  interfaces_lt : file.interfaces.length < 65536
  fields_lt : file.fields.length < 65536
  fields : ∀ m ∈ file.fields, m.attributes.WellFormed file.pool
  methods_lt : file.methods.length < 65536
  methods : ∀ m ∈ file.methods, m.attributes.WellFormed file.pool
  attributes : file.attributes.WellFormed file.pool

theorem reads {file : ClassFile} (h : file.WellFormed) : Reads decode file.layout file := by
  have hfields := Reads.counted h.fields_lt fun m hm => Member.reads (h.fields m hm)
  have hmethods := Reads.counted h.methods_lt fun m hm => Member.reads (h.methods m hm)
  rw [layout, draft, ClassDraft.layout, Layout.counted_map, Layout.counted_map]
  simp only [List.append_assoc]
  refine (Reads.u4 magic).bind ?_
  rw [if_neg (not_not_intro rfl)]
  refine (Reads.u2 file.minorVersion).bind ?_
  refine (Reads.u2 file.majorVersion).bind ?_
  refine (ConstantPool.reads h.pool).bind ?_
  refine file.flags.reads.bind ?_
  refine (Reads.u2 file.thisClass).bind ?_
  refine (Reads.u2 file.superClass).bind ?_
  refine (Reads.counted h.interfaces_lt fun index _ => Reads.u2 index).bind ?_
  refine hfields.bind ?_
  refine hmethods.bind ?_
  exact (AttributeTable.reads h.attributes).bind_pure fun attributes => { file with attributes }

/-- **A class file is read as it is laid out.** Every well-formed class file is given back by its
layout, alone or anywhere in a stream with other bytes after it, which are left for others to read.
-/
theorem ofBytes_layout (file : ClassFile) (h : file.WellFormed) :
    ofBytes file.layout = .ok file
      ∧ ∀ (rest : Bytes) (p : Nat),
        decode ⟨file.layout ++ rest, p⟩ = .ok (file, ⟨rest, p + file.layout.length⟩) := by
  refine ⟨?_, reads h⟩
  have halone := reads h [] 0
  rw [List.append_nil] at halone
  rw [ofBytes, halone]

/-- A class file with wide entries in the middle and in the last slot, text that is not a string,
and attributes of every level. -/
def specimen : ClassFile where
  majorVersion := 52
  minorVersion := 3
  pool := ⟨[
    .utf8 (Text.unitsOf "p/Q"), .classRef 1, .long (-7), .unusable,
    .utf8 (Text.unitsOf "ConstantValue"), .utf8 (Text.unitsOf "InnerClasses"),
    .utf8 (Text.unitsOf "Code"), .utf8 [0xd800, 0x0000], .methodHandle .putStatic 2, .double 1]⟩
  flags := ⟨0x0021, by decide⟩
  thisClass := 2
  superClass := 0
  interfaces := [2, 1]
  fields := [⟨⟨0x0019, by decide⟩, 1, 1, [⟨5, "ConstantValue", .constantValue 3⟩]⟩]
  methods := [⟨⟨0x0101, by decide⟩, 1, 1,
    [⟨7, "Code", .raw [0xca, 0xfe]⟩, ⟨7, "Code", .raw []⟩]⟩]
  attributes := [⟨6, "InnerClasses", .innerClasses [⟨2, 0, 1, ⟨0x4010, by decide⟩⟩]⟩]

theorem wellFormed_specimen : specimen.WellFormed where
  pool := ⟨by decide, by decide, by decide⟩
  interfaces_lt := by decide
  fields_lt := by decide
  fields := by
    intro m hm
    obtain rfl := List.mem_singleton.1 hm
    refine ⟨by decide, ?_⟩
    intro a ha
    obtain rfl := List.mem_singleton.1 ha
    exact ⟨ConstantPool.textAt_eq rfl, rfl, nofun, by decide⟩
  methods_lt := by decide
  methods := by
    intro m hm
    obtain rfl := List.mem_singleton.1 hm
    refine ⟨by decide, ?_⟩
    intro a ha
    rcases List.mem_cons.1 ha with rfl | ha
    · exact ⟨ConstantPool.textAt_eq rfl, rfl, nofun, by decide⟩
    · obtain rfl := List.mem_singleton.1 ha
      exact ⟨ConstantPool.textAt_eq rfl, rfl, nofun, by decide⟩
  attributes := by
    refine ⟨by decide, ?_⟩
    intro a ha
    obtain rfl := List.mem_singleton.1 ha
    refine ⟨ConstantPool.textAt_eq rfl, rfl, ?_, by decide⟩
    rintro _ ⟨⟩
    decide

theorem ofBytes_layout_specimen :
    specimen.WellFormed ∧ ofBytes specimen.layout = .ok specimen
      ∧ decode ⟨specimen.layout ++ [0xff], 7⟩
        = .ok (specimen, ⟨[0xff], 7 + specimen.layout.length⟩) :=
  ⟨wellFormed_specimen, (ofBytes_layout specimen wellFormed_specimen).1,
    (ofBytes_layout specimen wellFormed_specimen).2 [0xff] 7⟩

end ClassFile

end NativeHeaders
