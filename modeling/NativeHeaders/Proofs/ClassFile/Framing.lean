import NativeHeaders.Proofs.ClassFile.RoundTrip

/-!
# Where a value ends

Whatever a decoder takes off the front of a stream is decided by the bytes that it takes
(`Decoder.SelfDelimiting`), and the position moves on by exactly as many. Other bytes may follow
without a difference, and where some of them are missing the answer is that the bytes ended, never
any other error.

The second half is the delicate one. It fails for a decoder that judges what it has before it has
everything: a block that was decoded piece by piece could be called malformed when it is only cut
off. It holds here because a block is fetched whole. In the composition (`Framed.bind`) a cut
falls either into what the first decoder takes, and then that one runs out, or behind it, and then
the first decoder gives what it gave before and the second runs out.
-/

set_option autoImplicit false

namespace NativeHeaders

variable {α β : Type}

/-- Whether a stream has moved past some bytes, and counts them. -/
structure ByteStream.Advances (s : ByteStream) (front : Bytes) (s' : ByteStream) : Prop where
  rest_eq : s.rest = front ++ s'.rest
  position_eq : s'.position = s.position + front.length

namespace ByteStream.Advances

variable {s s' s'' : ByteStream} {front back : Bytes}

theorem refl (s : ByteStream) : s.Advances [] s := ⟨rfl, rfl⟩

theorem append (h : s.Advances front s') (h' : s'.Advances back s'') :
    s.Advances (front ++ back) s'' where
  rest_eq := by rw [h.rest_eq, h'.rest_eq, List.append_assoc]
  position_eq := by rw [h'.position_eq, h.position_eq, List.length_append, Nat.add_assoc]

/-- Where a stream is can be told from how much was taken. -/
theorem eq_drop (h : s.Advances front s') :
    s' = ⟨s.rest.drop front.length, s.position + front.length⟩ := by
  rw [h.rest_eq, List.drop_left, ← h.position_eq]

end ByteStream.Advances

namespace Decoder

/-- Whether a decoder takes some number `n` of bytes off the front and counts them, decides by them
alone, wherever they stand, and on fewer of them says that they ended. -/
def SelfDelimiting (d : Decoder α) : Prop :=
  ∀ (s : ByteStream) (a : α) (s' : ByteStream), d s = .ok (a, s') →
    ∃ n, n + s'.rest.length = s.rest.length ∧ s'.rest = s.rest.drop n
      ∧ s'.position = s.position + n
      ∧ (∀ others p, d ⟨s.rest.take n ++ others, p⟩ = .ok (a, ⟨others, p + n⟩))
      ∧ ∀ m < n, ∀ p, ∃ what, d ⟨s.rest.take m, p⟩ = .error (.ended what)

/-- The same of the bytes that are taken, `front`. In this form it passes through `bind`. -/
def Framed (d : Decoder α) : Prop :=
  ∀ (s : ByteStream) (a : α) (s' : ByteStream), d s = .ok (a, s') →
    ∃ front, s.Advances front s' ∧ Reads d front a
      ∧ ∀ m < front.length, ∀ p, ∃ what, d ⟨front.take m, p⟩ = .error (.ended what)

theorem bind_apply (d : Decoder α) (f : α → Decoder β) (s : ByteStream) :
    (d >>= f) s =
      match d s with
      | .error e => .error e
      | .ok (a, s') => f a s' := by
  show (d s >>= fun found => f found.1 found.2) = _
  rcases d s with e | ⟨a, s'⟩
  · rfl
  · rfl

namespace Framed

theorem selfDelimiting {d : Decoder α} (h : Framed d) : SelfDelimiting d := by
  rintro ⟨bytes, p⟩ a ⟨rest, p'⟩ hd
  obtain ⟨front, ⟨hbytes, hposition⟩, hreads, hends⟩ := h _ a _ hd
  dsimp only at hbytes hposition
  obtain rfl := hbytes
  have htake : ∀ m ≤ front.length, (front ++ rest).take m = front.take m :=
    fun m hm => List.take_append_of_le_length hm
  refine ⟨front.length, by simp, by simp, hposition, ?_, ?_⟩
  · intro others p
    rw [htake _ (Nat.le_refl _), List.take_length]
    exact hreads others p
  · intro m hm p
    rw [htake m (Nat.le_of_lt hm)]
    exact hends m hm p

/-! ## Decoders in a row -/

theorem pure (a : α) : Framed (Pure.pure a) := by
  intro s b s' h
  obtain ⟨rfl, rfl⟩ := Prod.mk.inj (Except.ok.inj h)
  exact ⟨[], .refl s, .pure a, fun m hm => absurd hm (Nat.not_lt_zero m)⟩

theorem fail (e : ClassFileError) : Framed (Decoder.fail e : Decoder α) :=
  fun _ _ _ h => nomatch h

theorem bind {d : Decoder α} {f : α → Decoder β} (hd : Framed d) (hf : ∀ a, Framed (f a)) :
    Framed (d >>= f) := by
  intro s b s' h
  rw [bind_apply] at h
  rcases hfirst : d s with e | ⟨a, between⟩
  · rw [hfirst] at h
    contradiction
  rw [hfirst] at h
  obtain ⟨front, hfront, hreads, hends⟩ := hd s a between hfirst
  obtain ⟨back, hback, hreads', hends'⟩ := hf a between b s' h
  refine ⟨front ++ back, hfront.append hback, hreads.bind hreads', ?_⟩
  intro m hm p
  by_cases hcut : m < front.length
  · obtain ⟨what, hwhat⟩ := hends m hcut p
    refine ⟨what, ?_⟩
    rw [List.take_append_of_le_length (Nat.le_of_lt hcut), bind_apply, hwhat]
  · -- the first decoder still finds all that it took
    have hlength : m - front.length < back.length := by
      rw [List.length_append] at hm
      omega
    obtain ⟨what, hwhat⟩ := hends' (m - front.length) hlength (p + front.length)
    refine ⟨what, ?_⟩
    rw [List.take_append, List.take_of_length_le (Nat.le_of_not_lt hcut), bind_apply, hreads]
    exact hwhat

theorem bind_pure {d : Decoder α} (hd : Framed d) (f : α → β) :
    Framed (d >>= fun a => Pure.pure (f a)) :=
  hd.bind fun a => pure (f a)

theorem map {d : Decoder α} (hd : Framed d) (f : α → β) : Framed (f <$> d) := by
  rw [map_eq_pure_bind]
  exact hd.bind_pure f

/-! ## Numbers, blocks and lists -/

theorem take (what : Shortfall) (n : Nat) : Framed (Decoder.take what n) := by
  intro s front s' h
  unfold Decoder.take at h
  split at h
  · rename_i hlength
    obtain ⟨rfl, rfl⟩ := Prod.mk.inj (Except.ok.inj h)
    refine ⟨s.rest.take n, ⟨(List.take_append_drop n s.rest).symm, by rw [hlength]⟩, ?_, ?_⟩
    · intro rest p
      rw [take_append hlength, hlength]
    · intro m hm p
      have hshort : ¬ (((s.rest.take n).take m).take n).length = n := by
        simp only [List.length_take] at hlength hm ⊢
        omega
      exact ⟨what, if_neg hshort⟩
  · contradiction

theorem u1 : Framed Decoder.u1 := ((take .number 1).bind_pure bigEndian).map UInt8.ofNat

theorem u2 : Framed Decoder.u2 := ((take .number 2).bind_pure bigEndian).map UInt16.ofNat

theorem u4 : Framed Decoder.u4 := ((take .number 4).bind_pure bigEndian).map UInt32.ofNat

theorem u8 : Framed Decoder.u8 := ((take .number 8).bind_pure bigEndian).map UInt64.ofNat

theorem u2_u2 (make : UInt16 → UInt16 → α) :
    Framed (Decoder.u2 >>= fun m => Decoder.u2 >>= fun n => Pure.pure (make m n)) :=
  u2.bind fun m => u2.bind_pure (make m)

theorem block (n : Nat) : Framed (Decoder.block n) := take .block n

theorem times {item : Decoder α} (h : Framed item) (n : Nat) : Framed (Decoder.times n item) := by
  induction n with
  | zero => exact pure []
  | succ n ih => exact h.bind fun first => ih.bind_pure (first :: ·)

theorem counted {item : Decoder α} (h : Framed item) : Framed (Decoder.counted item) :=
  u2.bind fun count => h.times count.toNat

end Framed

end Decoder

open Decoder (Framed SelfDelimiting)

/-! ## The parts of a class file -/

theorem FlagSet.framed (kind : FlagKind) : Framed (FlagSet.decode kind) := by
  refine Framed.u2.bind fun bits => ?_
  split
  · exact .pure _
  · exact .fail _

namespace PoolEntry

theorem framed_body (tag : UInt8) : Framed (decodeBody tag) := by
  unfold decodeBody
  split
  · -- a text is fetched whole before it is looked at
    refine Framed.u2.bind fun length => (Framed.block length.toNat).bind fun bytes => ?_
    split
    · exact .pure _
    · exact .fail _
  · exact Framed.u4.bind_pure fun n => integer n.toInt32
  · exact Framed.u4.bind_pure float
  · exact Framed.u8.bind_pure fun n => long n.toInt64
  · exact Framed.u8.bind_pure double
  · exact Framed.u2.bind_pure classRef
  · exact Framed.u2.bind_pure string
  · exact .u2_u2 fieldRef
  · exact .u2_u2 methodRef
  · exact .u2_u2 interfaceMethodRef
  · exact .u2_u2 nameAndType
  · -- the kind is judged before the reference is there, but only a wrong kind fails
    refine Framed.u1.bind fun code => ?_
    split
    · rename_i kind _
      exact Framed.u2.bind_pure (methodHandle kind)
    · exact .fail _
  · exact Framed.u2.bind_pure methodType
  · exact .u2_u2 dynamic
  · exact .u2_u2 invokeDynamic
  · exact Framed.u2.bind_pure module
  · exact Framed.u2.bind_pure package
  · exact .fail _

theorem framed : Framed decode := Framed.u1.bind framed_body

end PoolEntry

namespace ConstantPool

theorem framed_slots : ∀ n : Nat, Framed (decodeSlots n)
  | 0 => .pure []
  | 1 => PoolEntry.framed.bind_pure ([·])
  | n + 2 => by
    refine PoolEntry.framed.bind fun entry => ?_
    by_cases hwide : entry.isWide
    · rw [if_pos hwide]
      exact (framed_slots n).bind_pure fun others => entry :: .unusable :: others
    · rw [if_neg hwide]
      exact (framed_slots (n + 1)).bind_pure (entry :: ·)

theorem framed : Framed decode :=
  Framed.u2.bind fun count => (framed_slots (count.toNat - 1)).bind_pure ConstantPool.mk

end ConstantPool

theorem InnerClass.framed : Framed InnerClass.decode :=
  Framed.u2.bind fun innerIndex => Framed.u2.bind fun outerIndex => Framed.u2.bind fun nameIndex =>
    (FlagSet.framed .ofInnerClass).bind_pure (InnerClass.mk innerIndex outerIndex nameIndex)

/-- What is wrong in a block is found when the block is there, so a cut does not show in it. -/
theorem Attribute.framed (pool : Option ConstantPool) : Framed (Attribute.decode pool) := by
  refine Framed.u2.bind fun nameIndex => Framed.u4.bind fun length =>
    (Framed.block length.toNat).bind fun content => ?_
  split
  · exact .pure _
  · exact .fail _

theorem AttributeTable.framed (pool : Option ConstantPool) : Framed (AttributeTable.decode pool) :=
  (Attribute.framed pool).counted

theorem Member.framed (kind : FlagKind) (pool : Option ConstantPool) :
    Framed (Member.decode kind pool) :=
  (FlagSet.framed kind).bind fun flags => Framed.u2.bind fun nameIndex =>
    Framed.u2.bind fun descriptorIndex =>
      (AttributeTable.framed pool).bind_pure (Member.mk flags nameIndex descriptorIndex)

namespace ClassFile

theorem framed : Framed decode := by
  refine Framed.u4.bind fun found => ?_
  split
  · exact .fail _
  refine Framed.u2.bind fun minorVersion => Framed.u2.bind fun majorVersion => ?_
  refine ConstantPool.framed.bind fun pool => (FlagSet.framed .ofClass).bind fun flags => ?_
  refine Framed.u2.bind fun thisClass => Framed.u2.bind fun superClass => ?_
  refine Framed.u2.counted.bind fun interfaces => ?_
  refine (Member.framed .ofField (some pool)).counted.bind fun fields => ?_
  refine (Member.framed .ofMethod (some pool)).counted.bind fun methods => ?_
  exact (AttributeTable.framed (some pool)).bind_pure _

theorem ofBytes_eq_ok_iff {bytes : Bytes} {file : ClassFile} :
    ofBytes bytes = .ok file ↔ ∃ s, decode ⟨bytes, 0⟩ = .ok (file, s) := by
  rw [ofBytes]
  rcases decode ⟨bytes, 0⟩ with e | ⟨found, s⟩
  · simp
  · simp

/-- **Class files and all their parts delimit themselves.** A class file that is read from some
bytes is read from as many of them as the position of the stream says, whatever is put behind
these; with any fewer of them the answer is that the bytes ended. The same holds of every part on
its own, with a pool at hand and without, wherever in a stream it stands: the position moves on by
just the bytes that are taken. -/
theorem decoders_selfDelimiting :
    (∀ (bytes : Bytes) (file : ClassFile), ofBytes bytes = .ok file →
      ∃ s : ByteStream, decode ⟨bytes, 0⟩ = .ok (file, s)
        ∧ s.position ≤ bytes.length ∧ s.rest = bytes.drop s.position
        ∧ (∀ others, ofBytes (bytes.take s.position ++ others) = .ok file)
        ∧ ∀ m < s.position, ∃ what, ofBytes (bytes.take m) = .error (.ended what))
    ∧ SelfDelimiting decode
    ∧ SelfDelimiting ConstantPool.decode
    ∧ SelfDelimiting PoolEntry.decode
    ∧ (∀ pool, SelfDelimiting (AttributeTable.decode pool))
    ∧ (∀ kind pool, SelfDelimiting (Member.decode kind pool))
    ∧ SelfDelimiting InnerClass.decode := by
  refine ⟨?_, framed.selfDelimiting, ConstantPool.framed.selfDelimiting,
    PoolEntry.framed.selfDelimiting, fun pool => (AttributeTable.framed pool).selfDelimiting,
    fun kind pool => (Member.framed kind pool).selfDelimiting, InnerClass.framed.selfDelimiting⟩
  intro bytes file hfile
  obtain ⟨s, hdecode⟩ := ofBytes_eq_ok_iff.1 hfile
  obtain ⟨n, hlength, hrest, hposition, hextended, hcut⟩ := framed.selfDelimiting _ file s hdecode
  dsimp only at hlength hrest hposition hextended hcut
  -- the stream began at zero, so its position is the number of bytes that were taken
  rw [Nat.zero_add] at hposition
  refine ⟨s, hdecode, ?_⟩
  rw [hposition]
  refine ⟨by omega, hrest, ?_, ?_⟩
  · intro others
    exact ofBytes_eq_ok_iff.2 ⟨_, hextended others 0⟩
  · intro m hm
    obtain ⟨what, hwhat⟩ := hcut m hm 0
    refine ⟨what, ?_⟩
    rw [ofBytes, hwhat]

/-- The last attribute of the specimen is cut inside its entries. -/
theorem decoders_selfDelimiting_of_specimen :
    ofBytes specimen.layout = .ok specimen
      ∧ (∃ s : ByteStream, decode ⟨specimen.layout, 0⟩ = .ok (specimen, s)
        ∧ s.position ≤ specimen.layout.length
        ∧ ofBytes (specimen.layout.take s.position ++ [0]) = .ok specimen)
      ∧ ∃ what, decode ⟨specimen.layout.take (specimen.layout.length - 3), 5⟩
          = .error (.ended what) := by
  have hdecode : decode ⟨specimen.layout, 0⟩ = .ok (specimen, ⟨[], specimen.layout.length⟩) := by
    simpa using reads wellFormed_specimen [] 0
  have hfile := ofBytes_eq_ok_iff.2 ⟨_, hdecode⟩
  obtain ⟨s, hs, hle, -, hextended, -⟩ := decoders_selfDelimiting.1 _ _ hfile
  obtain ⟨n, hn, -, -, -, hcut⟩ := decoders_selfDelimiting.2.1 _ _ _ hdecode
  have hlength : 3 < specimen.layout.length := by decide +kernel
  refine ⟨hfile, ⟨s, hs, hle, hextended [0]⟩, hcut _ ?_ 5⟩
  dsimp only [List.length_nil] at hn
  omega

end ClassFile

end NativeHeaders
