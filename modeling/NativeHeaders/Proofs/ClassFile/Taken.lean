import NativeHeaders.Proofs.ClassFile.Framing

/-!
# What was taken off

A value that was read stood in the stream as it is laid out (`Decoder.Takes`). This is the converse
of `Decoder.Reads`, which says that a layout is read. Not every decoder has the property, since
some bytes may be read as what is written in others, but the numbers have it, and whatever is made
of numbers and blocks alone. A number is taken apart from its last byte on, as it is laid out
(`number_bigEndian`).

Some of what a decoder gives does not hang on the bytes at all (`Decoder.Gives`).
-/

set_option autoImplicit false

namespace NativeHeaders

variable {α β : Type}

/-! ## Numbers -/

theorem bigEndian_lt (bytes : Bytes) : bigEndian bytes < Nat.pow 256 bytes.length := by
  induction bytes using List.reverseRecOn with
  | nil => exact Nat.one_pos
  | append_singleton bytes b ih =>
    have hb : b.toNat < 256 := b.toNat_lt
    have hpow : Nat.pow 256 (bytes.length + 1) = Nat.pow 256 bytes.length * 256 := rfl
    rw [bigEndian_append_byte, List.length_append, List.length_singleton, hpow]
    omega

/-- Bytes are the layout of the number that they spell. -/
theorem number_bigEndian (bytes : Bytes) :
    Layout.number bytes.length (bigEndian bytes) = bytes := by
  induction bytes using List.reverseRecOn with
  | nil => rfl
  | append_singleton bytes b ih =>
    have hb : b.toNat < 256 := b.toNat_lt
    have hfront : (bigEndian bytes * 256 + b.toNat) / 256 = bigEndian bytes := by omega
    have hlast : UInt8.ofNat (bigEndian bytes * 256 + b.toNat) = b := by
      rw [← UInt8.toNat_inj, UInt8.toNat_ofNat']
      omega
    rw [bigEndian_append_byte, List.length_append, List.length_singleton, Layout.number, hfront,
      hlast, ih]

namespace Decoder

/-! ## Decoders in a row -/

theorem pure_eq_ok_iff {a b : α} {s s' : ByteStream} :
    (pure a : Decoder α) s = .ok (b, s') ↔ a = b ∧ s = s' := by
  have hpure : (pure a : Decoder α) s = .ok (a, s) := rfl
  rw [hpure, Except.ok.injEq, Prod.mk.injEq]

theorem bind_eq_ok_iff {d : Decoder α} {f : α → Decoder β} {s s' : ByteStream} {b : β} :
    (d >>= f) s = .ok (b, s')
      ↔ ∃ a between, d s = .ok (a, between) ∧ f a between = .ok (b, s') := by
  rw [bind_apply]
  rcases hd : d s with e | ⟨a, between⟩
  · simp
  · simp

theorem bind_eq_error_iff {d : Decoder α} {f : α → Decoder β} {s : ByteStream}
    {e : ClassFileError} :
    (d >>= f) s = .error e
      ↔ d s = .error e
        ∨ ∃ a between, d s = .ok (a, between) ∧ f a between = .error e := by
  rw [bind_apply]
  rcases hd : d s with e | ⟨a, between⟩
  · simp
  · simp

/-! ## What is given -/

/-- Whether all that a decoder gives has some property. -/
def Gives (d : Decoder α) (P : α → Prop) : Prop :=
  ∀ (s : ByteStream) (a : α) (s' : ByteStream), d s = .ok (a, s') → P a

namespace Gives

theorem pure {P : α → Prop} {a : α} (h : P a) : Gives (Pure.pure a) P := by
  intro s b s' hb
  obtain ⟨rfl, -⟩ := pure_eq_ok_iff.1 hb
  exact h

theorem fail {P : α → Prop} (e : ClassFileError) : Gives (Decoder.fail e : Decoder α) P :=
  fun _ _ _ h => nomatch h

/-- Only the last decoder decides. -/
theorem bind {P : β → Prop} {d : Decoder α} {f : α → Decoder β} (h : ∀ a, Gives (f a) P) :
    Gives (d >>= f) P := by
  intro s b s' hb
  obtain ⟨a, between, -, hf⟩ := bind_eq_ok_iff.1 hb
  exact h a between b s' hf

theorem bind_pure {P : β → Prop} {d : Decoder α} {f : α → β} (h : ∀ a, P (f a)) :
    Gives (d >>= fun a => Pure.pure (f a)) P :=
  bind fun a => pure (h a)

theorem u2_u2 {P : α → Prop} {make : UInt16 → UInt16 → α} (h : ∀ m n, P (make m n)) :
    Gives (Decoder.u2 >>= fun m => Decoder.u2 >>= fun n => Pure.pure (make m n)) P :=
  bind fun m => bind_pure (h m)

/-- A row holds what each item may be. -/
theorem times {P : α → Prop} {item : Decoder α} (h : Gives item P) (n : Nat) :
    Gives (Decoder.times n item) fun items => ∀ a ∈ items, P a := by
  induction n with
  | zero => exact pure (by simp)
  | succ n ih =>
    intro s items s' hread
    obtain ⟨first, between, hfirst, hbehind⟩ := bind_eq_ok_iff.1 hread
    obtain ⟨others, last, hothers, hitems⟩ := bind_eq_ok_iff.1 hbehind
    obtain ⟨rfl, rfl⟩ := pure_eq_ok_iff.1 hitems
    exact List.forall_mem_cons.2 ⟨h _ _ _ hfirst, ih _ _ _ hothers⟩

theorem counted {P : α → Prop} {item : Decoder α} (h : Gives item P) :
    Gives (Decoder.counted item) fun items => ∀ a ∈ items, P a :=
  bind fun count => h.times count.toNat

end Gives

/-! ## What is taken -/

/-- What a decoder reads stands in front as it is laid out, and is counted. -/
def Takes (d : Decoder α) (layout : α → Bytes) : Prop :=
  ∀ (s : ByteStream) (a : α) (s' : ByteStream), d s = .ok (a, s') → s.Advances (layout a) s'

theorem take_eq_ok {what : Shortfall} {n : Nat} {front : Bytes} {s s' : ByteStream}
    (h : take what n s = .ok (front, s')) : front.length = n ∧ s.Advances front s' := by
  unfold take at h
  split at h
  · rename_i hlength
    obtain ⟨rfl, rfl⟩ := Prod.mk.inj (Except.ok.inj h)
    exact ⟨hlength, (List.take_append_drop n s.rest).symm, by rw [hlength]⟩
  · contradiction

theorem number_eq_ok {width n : Nat} {s s' : ByteStream} (h : number width s = .ok (n, s')) :
    n < Nat.pow 256 width ∧ s.Advances (Layout.number width n) s' := by
  obtain ⟨front, between, hfront, hn⟩ := bind_eq_ok_iff.1 h
  obtain ⟨rfl, rfl⟩ := pure_eq_ok_iff.1 hn
  obtain ⟨rfl, htaken⟩ := take_eq_ok hfront
  exact ⟨bigEndian_lt front, by rwa [number_bigEndian]⟩

namespace Takes

/-- A number that is kept in another form is taken as it is laid out, if its layout is that of the
number. -/
theorem ofNumber {width : Nat} {make : Nat → α} {layout : α → Bytes}
    (h : ∀ n < Nat.pow 256 width, layout (make n) = Layout.number width n) :
    Takes (make <$> Decoder.number width) layout := by
  intro s a s' hread
  rw [map_eq_pure_bind] at hread
  obtain ⟨n, between, hn, ha⟩ := bind_eq_ok_iff.1 hread
  obtain ⟨rfl, rfl⟩ := pure_eq_ok_iff.1 ha
  obtain ⟨hlt, htaken⟩ := number_eq_ok hn
  rwa [h n hlt]

theorem u1 : Takes Decoder.u1 Layout.u1 :=
  ofNumber fun n hn => by rw [Layout.u1, UInt8.toNat_ofNat_of_lt' hn]

theorem u2 : Takes Decoder.u2 Layout.u2 :=
  ofNumber fun n hn => by rw [Layout.u2, UInt16.toNat_ofNat_of_lt' hn]

theorem u4 : Takes Decoder.u4 Layout.u4 :=
  ofNumber fun n hn => by rw [Layout.u4, UInt32.toNat_ofNat_of_lt' hn]

theorem u8 : Takes Decoder.u8 Layout.u8 :=
  ofNumber fun n hn => by rw [Layout.u8, UInt64.toNat_ofNat_of_lt' hn]

/-! ## Lists -/

theorem times {item : Decoder α} {layout : α → Bytes} (h : Takes item layout) {n : Nat}
    {s s' : ByteStream} {items : List α} (hread : Decoder.times n item s = .ok (items, s')) :
    items.length = n ∧ s.Advances (items.flatMap layout) s' := by
  induction n generalizing s items with
  | zero =>
    obtain ⟨rfl, rfl⟩ := pure_eq_ok_iff.1 hread
    exact ⟨rfl, .refl s⟩
  | succ n ih =>
    obtain ⟨first, between, hfirst, hbehind⟩ := bind_eq_ok_iff.1 hread
    obtain ⟨others, last, hothers, hitems⟩ := bind_eq_ok_iff.1 hbehind
    obtain ⟨rfl, rfl⟩ := pure_eq_ok_iff.1 hitems
    obtain ⟨hlength, htaken⟩ := ih hothers
    refine ⟨by rw [List.length_cons, hlength], ?_⟩
    rw [List.flatMap_cons]
    exact (h _ _ _ hfirst).append htaken

/-- The count of a list is that of its items. -/
theorem counted {item : Decoder α} {layout : α → Bytes} (h : Takes item layout)
    {s s' : ByteStream} {items : List α} (hread : Decoder.counted item s = .ok (items, s')) :
    items.length < 65536 ∧ s.Advances (Layout.counted layout items) s' := by
  obtain ⟨count, between, hcount, hitems⟩ := bind_eq_ok_iff.1 hread
  obtain ⟨hlength, htaken⟩ := h.times hitems
  have hlt : count.toNat < 65536 := count.toNat_lt
  refine ⟨by omega, ?_⟩
  rw [Layout.counted, hlength, UInt16.ofNat_toNat]
  exact (u2 _ _ _ hcount).append htaken

end Takes

/-- An item of a row is read where those before it end. -/
theorem times_eq_ok_at {item : Decoder α} {n k : Nat} {s s' : ByteStream} {items : List α} {a : α}
    (h : times n item s = .ok (items, s')) (hk : items[k]? = some a) :
    ∃ between behind, times k item s = .ok (items.take k, between)
      ∧ item between = .ok (a, behind) := by
  induction k generalizing n s items with
  | zero =>
    rcases n with _ | n
    · obtain ⟨rfl, -⟩ := pure_eq_ok_iff.1 h
      simp at hk
    · obtain ⟨first, between, hfirst, hbehind⟩ := bind_eq_ok_iff.1 h
      obtain ⟨others, last, -, hitems⟩ := bind_eq_ok_iff.1 hbehind
      obtain ⟨rfl, -⟩ := pure_eq_ok_iff.1 hitems
      obtain rfl : first = a := by simpa using hk
      exact ⟨s, between, rfl, hfirst⟩
  | succ k ih =>
    rcases n with _ | n
    · obtain ⟨rfl, -⟩ := pure_eq_ok_iff.1 h
      simp at hk
    · obtain ⟨first, between, hfirst, hbehind⟩ := bind_eq_ok_iff.1 h
      obtain ⟨others, last, hothers, hitems⟩ := bind_eq_ok_iff.1 hbehind
      obtain ⟨rfl, rfl⟩ := pure_eq_ok_iff.1 hitems
      obtain ⟨start, behind, htimes, hitem⟩ := ih hothers (by simpa using hk)
      refine ⟨start, behind, ?_, hitem⟩
      exact bind_eq_ok_iff.2 ⟨first, between, hfirst,
        bind_eq_ok_iff.2 ⟨others.take k, start, htimes, rfl⟩⟩

end Decoder

end NativeHeaders
