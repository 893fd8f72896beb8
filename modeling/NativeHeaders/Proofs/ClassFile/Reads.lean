import NativeHeaders.ClassFile.Layout

/-!
# Reading what is laid out

A decoder reads bytes as a value when it takes exactly these bytes off, whatever follows them and
whatever was taken off before (`Decoder.Reads`). What follows is arbitrary, so the property passes
through `bind`: two layouts side by side are read one after the other, and neither decoder reaches
into its neighbour. The position moves on by the length of what was taken.

Numbers come first, then blocks, then lists of items that are read one by one. Everything that is
made of these parts is read by putting their lemmas in a row.
-/

set_option autoImplicit false

namespace NativeHeaders

variable {α β : Type}

/-! ## Numbers -/

theorem bigEndian_append_byte (bytes : Bytes) (b : UInt8) :
    bigEndian (bytes ++ [b]) = bigEndian bytes * 256 + b.toNat := by
  rw [bigEndian, List.foldl_append, List.foldl_cons, List.foldl_nil, ← bigEndian]

/-- A number that fits its width is spelled by its layout. The induction is on the width, because
the last byte is what is left of the number by the others. -/
theorem bigEndian_number {width n : Nat} (h : n < Nat.pow 256 width) :
    bigEndian (Layout.number width n) = n := by
  induction width generalizing n with
  | zero =>
    have hn : n = 0 := Nat.lt_one_iff.1 h
    rw [hn]
    rfl
  | succ width ih =>
    have hdiv : n / 256 < Nat.pow 256 width := Nat.div_lt_of_lt_mul (by rwa [Nat.mul_comm])
    have hbyte : (UInt8.ofNat n).toNat = n % 256 := UInt8.toNat_ofNat'
    rw [Layout.number, bigEndian_append_byte, ih hdiv, hbyte]
    omega

namespace Decoder

/-! ## Decoders in a row -/

/-- A decoder takes a value off the bytes that hold it, counts them, and leaves what follows them
alone. -/
def Reads (d : Decoder α) (bytes : Bytes) (a : α) : Prop :=
  ∀ (rest : Bytes) (p : Nat), d ⟨bytes ++ rest, p⟩ = .ok (a, ⟨rest, p + bytes.length⟩)

namespace Reads

theorem pure (a : α) : Reads (Pure.pure a) [] a := fun _ _ => rfl

/-- What two decoders read stands side by side. -/
theorem bind {d : Decoder α} {f : α → Decoder β} {front back : Bytes} {a : α} {b : β}
    (hd : Reads d front a) (hf : Reads (f a) back b) : Reads (d >>= f) (front ++ back) b := by
  intro rest p
  -- to the first decoder the bytes of the second are part of what follows
  have hfront : d ⟨front ++ (back ++ rest), p⟩ = .ok (a, ⟨back ++ rest, p + front.length⟩) :=
    hd (back ++ rest) p
  have hback : f a ⟨back ++ rest, p + front.length⟩
      = .ok (b, ⟨rest, p + front.length + back.length⟩) := hf rest (p + front.length)
  show (d ⟨front ++ back ++ rest, p⟩ >>= fun found => f found.1 found.2) = _
  rw [List.append_assoc, hfront, List.length_append, ← Nat.add_assoc]
  exact hback

/-- After the last value no more bytes are taken. -/
theorem bind_last {d : Decoder α} {f : α → Decoder β} {bytes : Bytes} {a : α} {b : β}
    (hd : Reads d bytes a) (hf : Reads (f a) [] b) : Reads (d >>= f) bytes b := by
  have h := hd.bind hf
  rwa [List.append_nil] at h

theorem bind_pure {d : Decoder α} {bytes : Bytes} {a : α} (hd : Reads d bytes a) (f : α → β) :
    Reads (d >>= fun x => Pure.pure (f x)) bytes (f a) :=
  hd.bind_last (f := fun x => Pure.pure (f x)) (pure (f a))

theorem map {d : Decoder α} {bytes : Bytes} {a : α} (hd : Reads d bytes a) (f : α → β) :
    Reads (f <$> d) bytes (f a) := by
  intro rest p
  show (d ⟨bytes ++ rest, p⟩ >>= fun found => Pure.pure (f found.1, found.2)) = _
  rw [hd rest p]
  rfl

/-! ## Fields -/

theorem take (what : Shortfall) (bytes : Bytes) :
    Reads (Decoder.take what bytes.length) bytes bytes := fun _ _ => take_append rfl

theorem number {width n : Nat} (h : n < Nat.pow 256 width) :
    Reads (Decoder.number width) (Layout.number width n) n := by
  have hbytes := (take .number (Layout.number width n)).bind_pure bigEndian
  rwa [Layout.length_number, bigEndian_number h] at hbytes

theorem u1 (n : UInt8) : Reads Decoder.u1 (Layout.u1 n) n := by
  have hn : n.toNat < Nat.pow 256 1 := n.toNat_lt
  have h := (number hn).map UInt8.ofNat
  rwa [UInt8.ofNat_toNat] at h

theorem u2 (n : UInt16) : Reads Decoder.u2 (Layout.u2 n) n := by
  have hn : n.toNat < Nat.pow 256 2 := n.toNat_lt
  have h := (number hn).map UInt16.ofNat
  rwa [UInt16.ofNat_toNat] at h

/-- Two indices make up most of what refers to other entries. -/
theorem u2_u2 (make : UInt16 → UInt16 → α) (m n : UInt16) :
    Reads (Decoder.u2 >>= fun x => Decoder.u2 >>= fun y => Pure.pure (make x y))
      (Layout.u2 m ++ Layout.u2 n) (make m n) :=
  (u2 m).bind ((u2 n).bind_pure (make m))

theorem u4 (n : UInt32) : Reads Decoder.u4 (Layout.u4 n) n := by
  have hn : n.toNat < Nat.pow 256 4 := n.toNat_lt
  have h := (number hn).map UInt32.ofNat
  rwa [UInt32.ofNat_toNat] at h

theorem u8 (n : UInt64) : Reads Decoder.u8 (Layout.u8 n) n := by
  have hn : n.toNat < Nat.pow 256 8 := n.toNat_lt
  have h := (number hn).map UInt64.ofNat
  rwa [UInt64.ofNat_toNat] at h

theorem block (bytes : Bytes) : Reads (Decoder.block bytes.length) bytes bytes :=
  take .block bytes

/-! ## Lists -/

/-- Items in a row are read when each is. -/
theorem times {item : Decoder α} {layout : α → Bytes} {items : List α}
    (h : ∀ a ∈ items, Reads item (layout a) a) :
    Reads (Decoder.times items.length item) (items.flatMap layout) items := by
  induction items with
  | nil => exact pure []
  | cons a items ih =>
    have hfirst : Reads item (layout a) a := h a List.mem_cons_self
    have hothers := ih fun b hb => h b (List.mem_cons_of_mem a hb)
    exact hfirst.bind (hothers.bind_pure (a :: ·))

/-- Items are read after their count when the count fits its two bytes. -/
theorem counted {item : Decoder α} {layout : α → Bytes} {items : List α}
    (hlength : items.length < 65536) (h : ∀ a ∈ items, Reads item (layout a) a) :
    Reads (Decoder.counted item) (Layout.counted layout items) items := by
  have hcount : (UInt16.ofNat items.length).toNat = items.length :=
    UInt16.toNat_ofNat_of_lt' hlength
  refine (u2 _).bind ?_
  rw [hcount]
  exact times h

end Reads

end Decoder

/-! ## Layouts -/

theorem Layout.length_u2 (n : UInt16) : (Layout.u2 n).length = 2 := length_number 2 n.toNat

/-- Laying out items that are made of others. -/
theorem Layout.counted_map {γ : Type} (layout : β → Bytes) (make : γ → β) (items : List γ) :
    Layout.counted layout (items.map make) = Layout.counted (fun a => layout (make a)) items := by
  rw [Layout.counted, Layout.counted, List.length_map, List.flatMap_map]

namespace InnerClass

theorem length_layout (entry : InnerClass) : entry.layout.length = 8 := by
  simp only [layout, List.length_append, Layout.length_u2]

/-- Behind the count every entry takes eight bytes. -/
theorem length_counted_layout (entries : List InnerClass) :
    (Layout.counted layout entries).length = 2 + 8 * entries.length := by
  rw [Layout.counted, List.length_append, Layout.length_u2, List.length_flatMap]
  simp only [length_layout, List.map_const', List.sum_replicate_nat]
  omega

end InnerClass

end NativeHeaders
