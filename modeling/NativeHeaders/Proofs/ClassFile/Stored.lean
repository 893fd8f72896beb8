import NativeHeaders.Proofs.ClassFile.Slots

/-!
# Integers as they stand in a class file

What a lookup finds in the pool stands in the bytes of the class file, behind the entries that come
before it (`exists_of_entryAt`). How far that is can be told without knowing what the entry is: the
index counts the slots that the entries before it take (`StandsAt`).

The numbers of a pool have a sign, which is a matter of reading: the bytes of a negative number
spell what is left of it modulo a power of two (`twosComplement`).
-/

set_option autoImplicit false

namespace NativeHeaders

/-! ## Integers with a sign -/

/-- The integer that bytes spell when the first of their bits counts as negative. -/
def twosComplement (bytes : Bytes) : Int :=
  if 2 * bigEndian bytes < Nat.pow 256 bytes.length then bigEndian bytes
  else bigEndian bytes - Nat.pow 256 bytes.length

theorem twosComplement_number {width n : Nat} (h : n < Nat.pow 256 width) :
    twosComplement (Layout.number width n) =
      if 2 * n < Nat.pow 256 width then (n : Int) else n - Nat.pow 256 width := by
  rw [twosComplement, Layout.length_number, bigEndian_number h]

theorem twosComplement_u4 (n : UInt32) : twosComplement (Layout.u4 n) = n.toInt32.toInt := by
  have hn : n.toNat < Nat.pow 256 4 := n.toNat_lt
  have htoInt : n.toInt32.toInt = n.toBitVec.toInt := rfl
  rw [Layout.u4, twosComplement_number hn, htoInt, BitVec.toInt_eq_toNat_cond]
  rfl

theorem twosComplement_u8 (n : UInt64) : twosComplement (Layout.u8 n) = n.toInt64.toInt := by
  have hn : n.toNat < Nat.pow 256 8 := n.toNat_lt
  have htoInt : n.toInt64.toInt = n.toBitVec.toInt := rfl
  rw [Layout.u8, twosComplement_number hn, htoInt, BitVec.toInt_eq_toNat_cond]
  rfl

namespace PoolEntry

theorem decode_integer {s s' : ByteStream} {value : Int32}
    (h : decode s = .ok (integer value, s')) :
    ∃ stored, stored.length = 4 ∧ s.Advances (3 :: stored) s'
      ∧ twosComplement stored = value.toInt := by
  obtain ⟨body, htag, hbody⟩ := decode_eq_ok h
  obtain ⟨n, between, hn, hvalue⟩ := Decoder.bind_eq_ok_iff.1 hbody
  obtain ⟨hmk, rfl⟩ := Decoder.pure_eq_ok_iff.1 hvalue
  obtain rfl := PoolEntry.integer.inj hmk
  exact ⟨Layout.u4 n, Layout.length_number 4 n.toNat, htag.append (Decoder.Takes.u4 _ _ _ hn),
    twosComplement_u4 n⟩

theorem decode_long {s s' : ByteStream} {value : Int64}
    (h : decode s = .ok (long value, s')) :
    ∃ stored, stored.length = 8 ∧ s.Advances (5 :: stored) s'
      ∧ twosComplement stored = value.toInt := by
  obtain ⟨body, htag, hbody⟩ := decode_eq_ok h
  obtain ⟨n, between, hn, hvalue⟩ := Decoder.bind_eq_ok_iff.1 hbody
  obtain ⟨hmk, rfl⟩ := Decoder.pure_eq_ok_iff.1 hvalue
  obtain rfl := PoolEntry.long.inj hmk
  exact ⟨Layout.u8 n, Layout.length_number 8 n.toNat, htag.append (Decoder.Takes.u8 _ _ _ hn),
    twosComplement_u8 n⟩

end PoolEntry

/-! ## Where entries stand -/

namespace ClassFile

/-- Whether some bytes are the entry at an index of the pool. The entries begin behind the first ten
bytes of the file, and those before this one take the slots below the index. -/
def StandsAt (bytes : Bytes) (index : UInt16) (entryBytes : Bytes) : Prop :=
  ∃ before behind position,
    Decoder.times before.length PoolEntry.decode ⟨bytes.drop 10, 10⟩
        = .ok (before, ⟨entryBytes ++ behind, position⟩)
      ∧ index.toNat = 1 + (before.map PoolEntry.width).sum

/-- The pool of a file that is read is filled by the entries behind the first ten bytes. -/
theorem exists_fills {bytes : Bytes} {file : ClassFile} (h : ofBytes bytes = .ok file) :
    ∃ entries s,
      Decoder.times entries.length PoolEntry.decode ⟨bytes.drop 10, 10⟩ = .ok (entries, s)
        ∧ ConstantPool.Fills file.pool.slots.length entries file.pool.slots := by
  obtain ⟨last, hdecode⟩ := ofBytes_eq_ok_iff.1 h
  obtain ⟨found, s₁, hfound, hdecode⟩ := Decoder.bind_eq_ok_iff.1 hdecode
  split at hdecode
  · contradiction
  · obtain ⟨minor, s₂, hminor, hdecode⟩ := Decoder.bind_eq_ok_iff.1 hdecode
    obtain ⟨major, s₃, hmajor, hdecode⟩ := Decoder.bind_eq_ok_iff.1 hdecode
    obtain ⟨pool, behind, hpool, hdecode⟩ := Decoder.bind_eq_ok_iff.1 hdecode
    -- what comes behind the pool has no part in it
    have hfile : file.pool = pool :=
      Decoder.Gives.bind (P := fun f => f.pool = pool) (fun flags => .bind fun thisClass =>
        .bind fun superClass => .bind fun interfaces => .bind fun fields => .bind fun methods =>
          .bind_pure fun attributes => rfl) _ _ _ hdecode
    obtain ⟨count, s₄, hcount, hpool⟩ := Decoder.bind_eq_ok_iff.1 hpool
    obtain ⟨slots, s, hslots, hmk⟩ := Decoder.bind_eq_ok_iff.1 hpool
    obtain ⟨rfl, rfl⟩ := Decoder.pure_eq_ok_iff.1 hmk
    obtain ⟨entries, htimes, hfills⟩ := ConstantPool.fills_of_decodeSlots hslots
    have hlength := hfills.length_eq
    -- the pool begins at the position behind four numbers
    have hfront := (((Decoder.Takes.u4 _ _ _ hfound).append (Decoder.Takes.u2 _ _ _ hminor)).append
      (Decoder.Takes.u2 _ _ _ hmajor)).append (Decoder.Takes.u2 _ _ _ hcount)
    obtain rfl := hfront.eq_drop
    rw [hfile]
    exact ⟨entries, s, htimes, by rwa [hlength]⟩

/-- What a lookup finds is read where it stands. -/
theorem exists_of_entryAt {bytes : Bytes} {file : ClassFile} {index : UInt16} {entry : PoolEntry}
    (hfile : ofBytes bytes = .ok file) (hentry : file.pool.entryAt index = .ok entry) :
    ∃ before between behind,
      Decoder.times before.length PoolEntry.decode ⟨bytes.drop 10, 10⟩ = .ok (before, between)
        ∧ index.toNat = 1 + (before.map PoolEntry.width).sum
        ∧ PoolEntry.decode between = .ok (entry, behind) := by
  obtain ⟨entries, s, htimes, hfills⟩ := exists_fills hfile
  obtain ⟨hpos, hslot, hne⟩ := ConstantPool.entryAt_eq_ok_iff.1 hentry
  obtain ⟨k, hk, hsum⟩ := hfills.exists_getElem? hslot hne
  obtain ⟨between, behind, hbefore, hread⟩ := Decoder.times_eq_ok_at htimes hk
  have hlength : (entries.take k).length = k :=
    List.length_take_of_le (List.getElem?_eq_some_iff.1 hk).1.le
  refine ⟨entries.take k, between, behind, ?_, by omega, hread⟩
  rwa [hlength]

theorem standsAt_of_advances {bytes entryBytes : Bytes} {index : UInt16} {before : List PoolEntry}
    {between behind : ByteStream}
    (hbefore : Decoder.times before.length PoolEntry.decode ⟨bytes.drop 10, 10⟩
      = .ok (before, between))
    (hindex : index.toNat = 1 + (before.map PoolEntry.width).sum)
    (h : between.Advances entryBytes behind) : StandsAt bytes index entryBytes := by
  refine ⟨before, behind.rest, between.position, ?_, hindex⟩
  rw [← h.rest_eq]
  exact hbefore

theorem standsAt_integer {bytes : Bytes} {file : ClassFile} {index : UInt16} {value : Int32}
    (hfile : ofBytes bytes = .ok file) (hentry : file.pool.entryAt index = .ok (.integer value)) :
    ∃ stored, stored.length = 4 ∧ StandsAt bytes index (3 :: stored)
      ∧ twosComplement stored = value.toInt := by
  obtain ⟨before, between, behind, hbefore, hindex, hread⟩ := exists_of_entryAt hfile hentry
  obtain ⟨stored, hlength, htaken, hvalue⟩ := PoolEntry.decode_integer hread
  exact ⟨stored, hlength, standsAt_of_advances hbefore hindex htaken, hvalue⟩

theorem standsAt_long {bytes : Bytes} {file : ClassFile} {index : UInt16} {value : Int64}
    (hfile : ofBytes bytes = .ok file) (hentry : file.pool.entryAt index = .ok (.long value)) :
    ∃ stored, stored.length = 8 ∧ StandsAt bytes index (5 :: stored)
      ∧ twosComplement stored = value.toInt := by
  obtain ⟨before, between, behind, hbefore, hindex, hread⟩ := exists_of_entryAt hfile hentry
  obtain ⟨stored, hlength, htaken, hvalue⟩ := PoolEntry.decode_long hread
  exact ⟨stored, hlength, standsAt_of_advances hbefore hindex htaken, hvalue⟩

end ClassFile

end NativeHeaders
