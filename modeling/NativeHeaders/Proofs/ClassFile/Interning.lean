import NativeHeaders.ClassFile.Builder
import NativeHeaders.Proofs.ClassFile.RoundTrip

/-!
# Indices that a builder hands out

A builder hands out an index when the pool is still growing, and the index has to be right in the
pool of the finished class file. So what is known of an index is never said of the pool as it is,
but of every pool that its slots can grow into (`ConstantPool.Lasting`). Said like that, it is not
lost when more slots are added.

A builder is sound when its slots are complete, so that an entry can begin behind them, when every
entry can be laid out, and when the tables of texts and classes know the right indices. A
computation that touches nothing but the pool and these tables keeps a builder sound
(`ClassBuilder.Adds`), and such computations compose.
-/

set_option autoImplicit false

namespace NativeHeaders

variable {α β : Type}

/-! ## What stands at an index -/

namespace ConstantPool

/-- An entry is found in a slot of the pool that is usable. -/
theorem entryAt_eq_ok_iff {pool : ConstantPool} {index : UInt16} {entry : PoolEntry} :
    pool.entryAt index = .ok entry
      ↔ 1 ≤ index.toNat ∧ pool.slots[index.toNat - 1]? = some entry ∧ entry ≠ .unusable := by
  have hzero : index = 0 ↔ index.toNat = 0 := by rw [← UInt16.toNat_inj, UInt16.toNat_zero]
  unfold entryAt
  by_cases hindex : index = 0
  · have hnot := hzero.1 hindex
    rw [if_pos hindex]
    exact ⟨fun h => (nomatch h), fun h => by omega⟩
  · have hpos : 1 ≤ index.toNat := by
      rw [hzero] at hindex
      omega
    rw [if_neg hindex]
    split
    · rename_i hslot
      rw [hslot]
      exact ⟨fun h => (nomatch h), fun h => (nomatch h.2.1)⟩
    · rename_i hslot
      rw [hslot]
      exact ⟨fun h => (nomatch h), fun h => absurd (Option.some.inj h.2.1).symm h.2.2⟩
    · rename_i found hne hslot
      rw [hslot, Except.ok.injEq, Option.some.injEq]
      constructor
      · rintro rfl
        exact ⟨hpos, rfl, hne⟩
      · exact fun h => h.2.1

/-- Whether a text stands at an index. -/
def HasText (pool : ConstantPool) (index : UInt16) (text : String) : Prop :=
  pool.entryAt index = .ok (.utf8 (Text.unitsOf text))

/-- Whether a reference to the class of a name stands at an index. -/
def HasClass (pool : ConstantPool) (index : UInt16) (name : String) : Prop :=
  ∃ nameIndex, pool.entryAt index = .ok (.classRef nameIndex) ∧ pool.HasText nameIndex name

/-- Whether a constant stands at an index, bit for bit. -/
def HasConstant (pool : ConstantPool) (index : UInt16) : FieldConstant → Prop
  | .int value => pool.entryAt index = .ok (.integer value)
  | .long value => pool.entryAt index = .ok (.long value)
  | .float bits => pool.entryAt index = .ok (.float bits)
  | .double bits => pool.entryAt index = .ok (.double bits)
  | .string text =>
    ∃ textIndex, pool.entryAt index = .ok (.string textIndex) ∧ pool.HasText textIndex text

theorem HasClass.classNameAt_eq {pool : ConstantPool} {index : UInt16} {name : String}
    (h : pool.HasClass index name) : pool.classNameAt index = .ok name := by
  obtain ⟨nameIndex, hentry, htext⟩ := h
  rw [classNameAt, hentry]
  exact textAt_eq htext

/-! ## Slots that can grow -/

/-- Whether something holds of every pool that some slots can grow into. -/
def Lasting (slots : List PoolEntry) (P : ConstantPool → Prop) : Prop :=
  ∀ pool : ConstantPool, slots <+: pool.slots → pool.slots.length ≤ 65534 → P pool

namespace Lasting

variable {slots slots' : List PoolEntry} {P Q : ConstantPool → Prop}

theorem mono (hslots : slots <+: slots') (h : Lasting slots P) : Lasting slots' P :=
  fun pool hpool hlength => h pool (hslots.trans hpool) hlength

theorem imp (h : Lasting slots P) (hPQ : ∀ pool, P pool → Q pool) : Lasting slots Q :=
  fun pool hpool hlength => hPQ pool (h pool hpool hlength)

theorem and (hP : Lasting slots P) (hQ : Lasting slots Q) :
    Lasting slots fun pool => P pool ∧ Q pool :=
  fun pool hpool hlength => ⟨hP pool hpool hlength, hQ pool hpool hlength⟩

end Lasting

/-- An entry keeps its index, which fits its two bytes in every pool that can be laid out. -/
theorem lasting_entryAt (slots tail : List PoolEntry) {entry : PoolEntry}
    (h : entry ≠ .unusable) :
    Lasting (slots ++ entry :: tail)
      fun pool => pool.entryAt (UInt16.ofNat (slots.length + 1)) = .ok entry := by
  rintro pool ⟨others, hslots⟩ hlength
  have hbound : slots.length + 1 ≤ pool.slots.length := by
    rw [← hslots]
    simp only [List.length_append, List.length_cons]
    omega
  have hindex : (UInt16.ofNat (slots.length + 1)).toNat = slots.length + 1 :=
    UInt16.toNat_ofNat_of_lt' (show slots.length + 1 < 65536 by omega)
  have hget : pool.slots[slots.length]? = some entry := by
    rw [← hslots]
    simp
  apply entryAt_eq_ok_iff.2
  rw [hindex, Nat.add_sub_cancel]
  exact ⟨by omega, hget, h⟩

/-- Whether an entry can begin behind some slots. -/
structure Complete (slots : List PoolEntry) : Prop where
  paired : Paired slots
  last : ∀ entry ∈ slots.getLast?, ¬ entry.isWide

theorem complete_nil : Complete [] := ⟨⟨nofun, .nil⟩, nofun⟩

/-- An entry is put behind complete slots, with its second slot if it is wide. -/
theorem Complete.append {slots : List PoolEntry} {entry : PoolEntry} (h : Complete slots)
    (hne : entry ≠ .unusable) :
    Complete (slots ++ entry :: if entry.isWide then [.unusable] else []) := by
  have hlink : ∀ tail : List PoolEntry, ∀ before ∈ slots.getLast?,
      ∀ next ∈ (entry :: tail).head?, Follows before next := by
    intro tail before hbefore next hnext
    obtain rfl : entry = next := Option.some.inj hnext
    exact ⟨fun hwide => absurd hwide (h.last before hbefore), fun heq => absurd heq hne⟩
  have hhead : ∀ tail : List PoolEntry, (slots ++ entry :: tail).head? ≠ some .unusable := by
    intro tail
    rcases slots with _ | ⟨first, slots⟩
    · exact fun heq => hne (Option.some.inj heq)
    · exact h.paired.1
  by_cases hwide : entry.isWide
  · rw [if_pos hwide]
    refine ⟨⟨hhead _, List.isChain_append.2 ⟨h.paired.2, ?_, hlink _⟩⟩, ?_⟩
    · exact .cons_cons ⟨fun _ => rfl, fun _ => hwide⟩ (.singleton _)
    · intro last hlast
      obtain rfl : PoolEntry.unusable = last := by simpa using hlast
      exact nofun
  · rw [if_neg hwide]
    refine ⟨⟨hhead _, List.isChain_append.2 ⟨h.paired.2, .singleton _, hlink _⟩⟩, ?_⟩
    intro last hlast
    obtain rfl : entry = last := by simpa using hlast
    exact hwide

end ConstantPool

/-- Whether an index is that of something optional; it is zero where there is nothing. -/
def IndexOrZero (P : UInt16 → α → Prop) (index : UInt16) : Option α → Prop
  | none => index = 0
  | some a => P index a

theorem IndexOrZero.imp {P Q : UInt16 → α → Prop} {index : UInt16} {found : Option α}
    (h : IndexOrZero P index found) (hPQ : ∀ i a, P i a → Q i a) :
    IndexOrZero Q index found := by
  rcases found with _ | a
  · exact h
  · exact hPQ index a h

/-! ## Sound builders -/

/-- Whether a text is short enough for a constant pool. -/
def Text.Short (units : Text.Units) : Prop := (Text.ModifiedUtf8.encode units).length ≤ 65535

instance : DecidablePred Text.Short := fun _ => inferInstanceAs (Decidable (_ ≤ _))

/-- Whether the text of a constant, if it is one, is short enough. -/
def FieldConstant.Short : FieldConstant → Prop
  | string text => Text.Short (Text.unitsOf text)
  | _ => True

instance : DecidablePred FieldConstant.Short
  | .string text => inferInstanceAs (Decidable (Text.Short (Text.unitsOf text)))
  | .int _ | .long _ | .float _ | .double _ => isTrue trivial

theorem AttributeKind.short_name (kind : AttributeKind) : Text.Short (Text.unitsOf kind.name) := by
  cases kind <;> decide

namespace ClassBuilder

open ConstantPool (Lasting HasText HasClass HasConstant Complete)

/-- Whether the pool of a builder can be laid out and its tables know the right indices. -/
structure Sound (b : ClassBuilder) : Prop where
  complete : Complete b.draft.pool.slots
  fits : ∀ entry ∈ b.draft.pool.slots, entry.fits
  texts : ∀ text index, b.texts.lookup text = some index →
    Lasting b.draft.pool.slots (·.HasText index text)
  classes : ∀ name index, b.classes.lookup name = some index →
    Lasting b.draft.pool.slots (·.HasClass index name)

/-- Whether a builder differs from an earlier one in its pool and its tables only. -/
structure Grows (b b' : ClassBuilder) : Prop where
  slots : b.draft.pool.slots <+: b'.draft.pool.slots
  draft : b'.draft = { b.draft with pool := b'.draft.pool }
  innerClasses : b'.innerClasses = b.innerClasses

theorem Grows.refl (b : ClassBuilder) : Grows b b := ⟨List.prefix_rfl, rfl, rfl⟩

theorem Grows.trans {b b' b'' : ClassBuilder} (h : Grows b b') (h' : Grows b' b'') :
    Grows b b'' := by
  refine ⟨h.slots.trans h'.slots, ?_, h'.innerClasses.trans h.innerClasses⟩
  rw [h'.draft, h.draft]

/-- Whether a computation keeps a builder sound, adds to its pool and its tables only, and gives
something of which `P` holds in every pool that the slots can grow into. -/
def Adds (m : Build α) (P : α → ConstantPool → Prop) : Prop :=
  ∀ b : ClassBuilder, b.Sound →
    (m b).2.Sound ∧ Grows b (m b).2 ∧ Lasting (m b).2.draft.pool.slots (P (m b).1)

namespace Adds

variable {m : Build α} {f : α → Build β} {P P' : α → ConstantPool → Prop}

theorem pure {a : α} (h : ∀ pool, P a pool) : Adds (Pure.pure a) P :=
  fun b hb => ⟨hb, .refl b, fun pool _ _ => h pool⟩

theorem imp (hm : Adds m P) (h : ∀ a pool, P a pool → P' a pool) : Adds m P' := by
  intro b hb
  obtain ⟨hsound, hgrows, hresult⟩ := hm b hb
  exact ⟨hsound, hgrows, hresult.imp (h (m b).1)⟩

/-- What the first computation gives is not lost on the second. -/
theorem bind {Q : α → β → ConstantPool → Prop} (hm : Adds m P) (hf : ∀ a, Adds (f a) (Q a)) :
    Adds (m >>= f) fun r pool => ∃ a, P a pool ∧ Q a r pool := by
  intro b hb
  obtain ⟨hsound, hgrows, hresult⟩ := hm b hb
  obtain ⟨hsound', hgrows', hresult'⟩ := hf (m b).1 (m b).2 hsound
  refine ⟨hsound', hgrows.trans hgrows', ?_⟩
  exact ((hresult.mono hgrows'.slots).and hresult').imp fun pool h => ⟨(m b).1, h⟩

end Adds

/-! ## Entries, texts and classes -/

theorem adds_push (entry : PoolEntry) (hne : entry ≠ .unusable) (hfits : entry.fits) :
    Adds (push entry) fun index pool => pool.entryAt index = .ok entry := by
  intro b hb
  have hslots : b.draft.pool.slots <+: (push entry b).2.draft.pool.slots := List.prefix_append _ _
  refine ⟨⟨hb.complete.append hne, ?_, ?_, ?_⟩, ⟨hslots, rfl, rfl⟩,
    ConstantPool.lasting_entryAt _ _ hne⟩
  · intro other hother
    rcases List.mem_append.1 hother with hold | hnew
    · exact hb.fits other hold
    · rcases List.mem_cons.1 hnew with rfl | hsecond
      · exact hfits
      · have hunusable : other = .unusable := by
          by_cases hwide : entry.isWide
          · simpa [hwide] using hsecond
          · simp [hwide] at hsecond
        rw [hunusable]
        rfl
  · exact fun text index h => (hb.texts text index h).mono hslots
  · exact fun name index h => (hb.classes name index h).mono hslots

/-- What holds of a table's indices still holds when it learns one more. -/
theorem forall_lookup_cons {P : String → UInt16 → Prop} {key : String} {index : UInt16}
    {table : List (String × UInt16)} (hnew : P key index)
    (hold : ∀ k i, table.lookup k = some i → P k i) :
    ∀ k i, ((key, index) :: table).lookup k = some i → P k i := by
  intro k i hlookup
  rw [List.lookup_cons] at hlookup
  by_cases hk : k = key
  · rw [hk, beq_self_eq_true] at hlookup
    rw [hk, ← Option.some.inj hlookup]
    exact hnew
  · rw [beq_eq_false_iff_ne.2 hk] at hlookup
    exact hold k i hlookup

/-- A text that is not in the table gets an entry, and the table learns its index. -/
theorem utf8_of_lookup_eq_none {b : ClassBuilder} {text : String}
    (h : b.texts.lookup text = none) :
    utf8 text b =
      let found := push (.utf8 (Text.unitsOf text)) b
      (found.1, { found.2 with texts := (text, found.1) :: found.2.texts }) := by
  simp only [utf8, bind, StateT.bind, get, getThe, MonadStateOf.get, StateT.get, pure, h]
  rfl

theorem utf8_of_lookup_eq_some {b : ClassBuilder} {text : String} {index : UInt16}
    (h : b.texts.lookup text = some index) : utf8 text b = (index, b) := by
  simp only [utf8, bind, StateT.bind, get, getThe, MonadStateOf.get, StateT.get, pure, h]
  rfl

/-- A text keeps the index that it was given first. -/
theorem adds_utf8 {text : String} (h : Text.Short (Text.unitsOf text)) :
    Adds (utf8 text) fun index pool => pool.HasText index text := by
  intro b hb
  rcases hlookup : b.texts.lookup text with _ | index
  · obtain ⟨hsound, hgrows, hresult⟩ :=
      adds_push (.utf8 (Text.unitsOf text)) nofun (decide_eq_true h) b hb
    rw [utf8_of_lookup_eq_none hlookup]
    refine ⟨⟨hsound.complete, hsound.fits, ?_, hsound.classes⟩,
      ⟨hgrows.slots, hgrows.draft, hgrows.innerClasses⟩, hresult⟩
    exact forall_lookup_cons hresult hsound.texts
  · rw [utf8_of_lookup_eq_some hlookup]
    exact ⟨hb, .refl b, hb.texts text index hlookup⟩

/-- A reference to a class is pushed behind the text of its name. -/
theorem adds_push_classRef {name : String} (h : Text.Short (Text.unitsOf name)) :
    Adds (utf8 name >>= fun nameIndex => push (.classRef nameIndex))
      fun index pool => pool.HasClass index name := by
  refine ((adds_utf8 h).bind fun nameIndex => adds_push (.classRef nameIndex) nofun rfl).imp ?_
  rintro index pool ⟨nameIndex, htext, hentry⟩
  exact ⟨nameIndex, hentry, htext⟩

theorem classRef_of_lookup_eq_none {b : ClassBuilder} {name : String}
    (h : b.classes.lookup name = none) :
    classRef name b =
      let found := (utf8 name >>= fun nameIndex => push (.classRef nameIndex)) b
      (found.1, { found.2 with classes := (name, found.1) :: found.2.classes }) := by
  simp only [classRef, bind, StateT.bind, get, getThe, MonadStateOf.get, StateT.get, pure, h]
  rfl

theorem classRef_of_lookup_eq_some {b : ClassBuilder} {name : String} {index : UInt16}
    (h : b.classes.lookup name = some index) : classRef name b = (index, b) := by
  simp only [classRef, bind, StateT.bind, get, getThe, MonadStateOf.get, StateT.get, pure, h]
  rfl

/-- A class keeps the index that it was given first. -/
theorem adds_classRef {name : String} (h : Text.Short (Text.unitsOf name)) :
    Adds (classRef name) fun index pool => pool.HasClass index name := by
  intro b hb
  rcases hlookup : b.classes.lookup name with _ | index
  · obtain ⟨hsound, hgrows, hresult⟩ := adds_push_classRef h b hb
    rw [classRef_of_lookup_eq_none hlookup]
    refine ⟨⟨hsound.complete, hsound.fits, hsound.texts, ?_⟩,
      ⟨hgrows.slots, hgrows.draft, hgrows.innerClasses⟩, hresult⟩
    exact forall_lookup_cons hresult hsound.classes
  · rw [classRef_of_lookup_eq_some hlookup]
    exact ⟨hb, .refl b, hb.classes name index hlookup⟩

theorem adds_constant : ∀ {value : FieldConstant}, value.Short →
    Adds (constant value) fun index pool => pool.HasConstant index value
  | .int value, _ => adds_push (.integer value) nofun rfl
  | .long value, _ => adds_push (.long value) nofun rfl
  | .float bits, _ => adds_push (.float bits) nofun rfl
  | .double bits, _ => adds_push (.double bits) nofun rfl
  | .string text, h => by
    refine ((adds_utf8 h).bind fun textIndex => adds_push (.string textIndex) nofun rfl).imp ?_
    rintro index pool ⟨textIndex, htext, hentry⟩
    exact ⟨textIndex, hentry, htext⟩

/-- The index that something optional gives is zero exactly where there is nothing. -/
theorem adds_orZero {index : α → Build UInt16} {P : UInt16 → α → ConstantPool → Prop}
    {found : Option α} (h : ∀ a ∈ found, Adds (index a) fun i pool => P i a pool) :
    Adds (orZero index found) fun i pool => IndexOrZero (fun i a => P i a pool) i found := by
  rcases found with _ | a
  · exact .pure fun _ => rfl
  · exact h a rfl

end ClassBuilder

end NativeHeaders
