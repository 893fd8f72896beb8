import Mathlib.Algebra.GroupWithZero.Nat
import Mathlib.Data.List.Chain
import NativeHeaders.Proofs.ClassFile.Interning
import NativeHeaders.Proofs.ClassFile.Taken

/-!
# The slots of a pool that was read

The entries of a pool stand in the bytes one after the other, and the slots are what they fill:
each its own slot, and a wide one the slot after it as well. The last entry may be wide where only
one slot is left, and then the slots end in the middle of what it fills. So the slots are the first
ones of what the entries fill (`Fills`), and that is all there is to say of them: which are
unusable, what is found at an index, and where an entry of the bytes has gone all follow.

Where an entry goes is the number of slots that the entries before it take (`Fills.getElem?_eq`).
-/

set_option autoImplicit false

namespace NativeHeaders

/-! ## Entries that are read -/

namespace PoolEntry

open Decoder (Gives)

/-- An entry is read behind its own tag. -/
theorem gives_tag_body (tag : UInt8) : Gives (decodeBody tag) (·.tag.toNat = tag.toNat) := by
  unfold decodeBody
  split <;> rename_i htag
  · refine Gives.bind fun length => Gives.bind fun bytes => ?_
    split
    · exact .pure htag.symm
    · exact .fail _
  · exact .bind_pure fun _ => htag.symm
  · exact .bind_pure fun _ => htag.symm
  · exact .bind_pure fun _ => htag.symm
  · exact .bind_pure fun _ => htag.symm
  · exact .bind_pure fun _ => htag.symm
  · exact .bind_pure fun _ => htag.symm
  · exact .u2_u2 fun _ _ => htag.symm
  · exact .u2_u2 fun _ _ => htag.symm
  · exact .u2_u2 fun _ _ => htag.symm
  · exact .u2_u2 fun _ _ => htag.symm
  · refine Gives.bind fun code => ?_
    split
    · exact .bind_pure fun _ => htag.symm
    · exact .fail _
  · exact .bind_pure fun _ => htag.symm
  · exact .u2_u2 fun _ _ => htag.symm
  · exact .u2_u2 fun _ _ => htag.symm
  · exact .bind_pure fun _ => htag.symm
  · exact .bind_pure fun _ => htag.symm
  · exact .fail _

/-- An entry is what the body behind its tag is read as. -/
theorem decode_eq_ok {s s' : ByteStream} {entry : PoolEntry} (h : decode s = .ok (entry, s')) :
    ∃ body, s.Advances [entry.tag] body ∧ decodeBody entry.tag body = .ok (entry, s') := by
  obtain ⟨tag, body, hhead, hbody⟩ := Decoder.bind_eq_ok_iff.1 h
  have htag : entry.tag = tag := UInt8.toNat_inj.1 (gives_tag_body tag _ _ _ hbody)
  have hlayout : Layout.u1 tag = [tag] := by simp [Layout.u1, Layout.number]
  subst htag
  refine ⟨body, ?_, hbody⟩
  rw [← hlayout]
  exact Decoder.Takes.u1 _ _ _ hhead

/-- No entry is read as a slot that is not usable, since nothing has its tag. -/
theorem gives_ne_unusable : Gives decode (· ≠ unusable) := by
  rintro s entry s' hread rfl
  obtain ⟨body, -, hbody⟩ := decode_eq_ok hread
  cases hbody

/-! ## What entries fill -/

/-- The slots that an entry fills. -/
def filling (entry : PoolEntry) : List PoolEntry :=
  entry :: if entry.isWide then [unusable] else []

/-- The number of slots that an entry takes. -/
def width (entry : PoolEntry) : Nat := if entry.isWide then 2 else 1

theorem length_filling (entry : PoolEntry) : entry.filling.length = entry.width := by
  unfold filling width
  by_cases hwide : entry.isWide
  · simp [hwide]
  · simp [hwide]

theorem width_pos (entry : PoolEntry) : 0 < entry.width := by
  unfold width
  split <;> omega

theorem width_le (entry : PoolEntry) : entry.width ≤ 2 := by
  unfold width
  split <;> omega

end PoolEntry

namespace ConstantPool

open PoolEntry (filling width length_filling)

theorem length_flatMap_filling (entries : List PoolEntry) :
    (entries.flatMap filling).length = (entries.map width).sum := by
  rw [List.length_flatMap]
  simp only [length_filling]

theorem complete_flatMap_filling {entries : List PoolEntry}
    (h : ∀ entry ∈ entries, entry ≠ .unusable) : Complete (entries.flatMap filling) := by
  induction entries using List.reverseRecOn with
  | nil => exact complete_nil
  | append_singleton entries entry ih =>
    rw [List.flatMap_append, List.flatMap_singleton]
    apply Complete.append
    · exact ih fun other hother => h other (List.mem_append_left _ hother)
    · exact h entry (List.mem_append_right _ List.mem_cons_self)

/-- What the first slots of a pool are like does not hang on the others. -/
theorem Paired.take {slots : List PoolEntry} (h : Paired slots) (n : Nat) :
    Paired (slots.take n) := by
  refine ⟨?_, h.2.take n⟩
  rcases n with _ | n
  · simp
  · rw [List.head?_take, if_neg (by omega)]
    exact h.1

theorem Paired.follows {slots : List PoolEntry} (h : Paired slots) {i : Nat}
    {entry next : PoolEntry} (hentry : slots[i]? = some entry)
    (hnext : slots[i + 1]? = some next) : Follows entry next := by
  obtain ⟨hi, rfl⟩ := List.getElem?_eq_some_iff.1 hentry
  obtain ⟨hi', rfl⟩ := List.getElem?_eq_some_iff.1 hnext
  exact h.2.getElem i hi'

/-- Whether some slots, `n` of them, are filled by entries of which the last begins in them. -/
structure Fills (n : Nat) (entries slots : List PoolEntry) : Prop where
  usable : ∀ entry ∈ entries, entry ≠ .unusable
  slots_eq : slots = (entries.flatMap filling).take n
  length_eq : slots.length = n
  begins : ∀ k < entries.length, ((entries.take k).map width).sum < n

namespace Fills

variable {n : Nat} {entry : PoolEntry} {entries slots : List PoolEntry}

theorem nil : Fills 0 [] [] := ⟨by simp, rfl, rfl, by simp⟩

/-- One entry is enough for one slot, even if it would fill two. -/
theorem singleton (hentry : entry ≠ .unusable) : Fills 1 [entry] [entry] where
  usable := by simpa using hentry
  slots_eq := by simp [filling]
  length_eq := rfl
  begins := by
    intro k hk
    obtain rfl : k = 0 := by simpa using hk
    simp

/-- An entry in front of those that fill the slots behind what it fills. -/
theorem cons (h : Fills n entries slots) (hentry : entry ≠ .unusable) :
    Fills (n + entry.width) (entry :: entries) (entry.filling ++ slots) where
  usable := List.forall_mem_cons.2 ⟨hentry, h.usable⟩
  slots_eq := by
    rw [List.flatMap_cons, Nat.add_comm, ← length_filling, List.take_length_add_append, h.slots_eq]
  length_eq := by rw [List.length_append, length_filling, h.length_eq, Nat.add_comm]
  begins := by
    intro k hk
    rcases k with _ | k
    · have hwidth := entry.width_pos
      simp only [List.take_zero, List.map_nil, List.sum_nil]
      omega
    · have hbegins := h.begins k (Nat.lt_of_succ_lt_succ hk)
      rw [List.take_succ_cons, List.map_cons, List.sum_cons]
      omega

theorem paired (h : Fills n entries slots) : Paired slots := by
  rw [h.slots_eq]
  exact (complete_flatMap_filling h.usable).paired.take n

/-- An entry is in the slot behind those that the entries before it take. -/
theorem getElem?_eq (h : Fills n entries slots) {k : Nat} (hk : entries[k]? = some entry) :
    slots[((entries.take k).map width).sum]? = some entry := by
  obtain ⟨hlt, rfl⟩ := List.getElem?_eq_some_iff.1 hk
  have hsplit : entries.flatMap filling
      = (entries.take k).flatMap filling ++ (entries.drop k).flatMap filling := by
    rw [← List.flatMap_append, List.take_append_drop]
  rw [h.slots_eq, List.getElem?_take_of_lt (h.begins k hlt), ← length_flatMap_filling, hsplit,
    List.getElem?_append_right (Nat.le_refl _), Nat.sub_self, List.drop_eq_getElem_cons hlt,
    List.flatMap_cons]
  rfl

/-- What a usable slot holds is an entry, and the slot is where it belongs. The induction is on the
entries, and the second slot of a wide one is not usable. -/
theorem exists_getElem?_of_flatMap {entries : List PoolEntry} {entry : PoolEntry} {i : Nat}
    (h : (entries.flatMap filling)[i]? = some entry) (hne : entry ≠ .unusable) :
    ∃ k, entries[k]? = some entry ∧ i = ((entries.take k).map width).sum := by
  induction entries generalizing i with
  | nil => simp at h
  | cons first entries ih =>
    rw [List.flatMap_cons] at h
    by_cases hi : i < first.width
    · rw [List.getElem?_append_left (by rwa [length_filling])] at h
      rcases i with _ | i
      · exact ⟨0, h, rfl⟩
      · -- behind the entry itself there is only its second slot
        have hmem : entry ∈ if first.isWide then [PoolEntry.unusable] else [] :=
          List.mem_of_getElem? h
        split at hmem
        · exact absurd (List.mem_singleton.1 hmem) hne
        · contradiction
    · rw [List.getElem?_append_right (by rw [length_filling]; omega), length_filling] at h
      obtain ⟨k, hk, hsum⟩ := ih h
      refine ⟨k + 1, hk, ?_⟩
      rw [List.take_succ_cons, List.map_cons, List.sum_cons]
      omega

/-- What is found in a usable slot is an entry, and there is none but the one that belongs there. -/
theorem exists_getElem? (h : Fills n entries slots) {i : Nat} (hi : slots[i]? = some entry)
    (hne : entry ≠ .unusable) :
    ∃ k, entries[k]? = some entry ∧ i = ((entries.take k).map width).sum := by
  rw [h.slots_eq, List.getElem?_take] at hi
  split at hi
  · exact exists_getElem?_of_flatMap hi hne
  · contradiction

end Fills

/-! ## Reading the slots -/

/-- As long as two slots are left, an entry is followed by those that fill the slots behind it. -/
theorem decodeSlots_add_two (n : Nat) :
    decodeSlots (n + 2) = do
      let entry ← PoolEntry.decode
      let others ← decodeSlots (n + 2 - entry.width)
      return entry.filling ++ others := by
  rw [decodeSlots]
  refine bind_congr fun entry => ?_
  by_cases hwide : entry.isWide
  · simp [hwide, width, filling]
  · simp [hwide, width, filling]

/-- The slots are filled by the entries that stand in the bytes. The last entry is taken as it is,
whatever it would fill. -/
theorem fills_of_decodeSlots {n : Nat} {s s' : ByteStream} {slots : List PoolEntry}
    (h : decodeSlots n s = .ok (slots, s')) :
    ∃ entries : List PoolEntry,
      Decoder.times entries.length PoolEntry.decode s = .ok (entries, s')
        ∧ Fills n entries slots := by
  induction n using Nat.strongRecOn generalizing s slots with
  | ind n ih =>
    rcases n with _ | _ | n
    · obtain ⟨rfl, rfl⟩ := Decoder.pure_eq_ok_iff.1 h
      exact ⟨[], rfl, .nil⟩
    · obtain ⟨entry, between, hentry, hslots⟩ := Decoder.bind_eq_ok_iff.1 h
      obtain ⟨rfl, rfl⟩ := Decoder.pure_eq_ok_iff.1 hslots
      have husable := PoolEntry.gives_ne_unusable _ _ _ hentry
      refine ⟨[entry], ?_, .singleton husable⟩
      exact Decoder.bind_eq_ok_iff.2 ⟨entry, between, hentry, rfl⟩
    · rw [decodeSlots_add_two] at h
      obtain ⟨entry, between, hentry, hslots⟩ := Decoder.bind_eq_ok_iff.1 h
      obtain ⟨others, last, hothers, hslots⟩ := Decoder.bind_eq_ok_iff.1 hslots
      obtain ⟨rfl, rfl⟩ := Decoder.pure_eq_ok_iff.1 hslots
      have husable := PoolEntry.gives_ne_unusable _ _ _ hentry
      have hpos := entry.width_pos
      have hle := entry.width_le
      obtain ⟨entries, htimes, hfills⟩ := ih (n + 2 - entry.width) (by omega) hothers
      refine ⟨entry :: entries, ?_, ?_⟩
      · -- the entries behind the first are read where it ends
        exact Decoder.bind_eq_ok_iff.2 ⟨entry, between, hentry,
          Decoder.bind_eq_ok_iff.2 ⟨entries, last, htimes, rfl⟩⟩
      · have hfilled := hfills.cons husable
        rwa [Nat.sub_add_cancel (by omega)] at hfilled

/-! ## Looking up -/

/-- **The slots of a pool that was read.** There is one slot fewer than the count says. No unusable
slot is the first, and of the others those are unusable that come behind a wide entry. So an index
is good for a lookup when its slot is there and usable, and the entries that stand in the bytes are
found behind the slots that the entries before them take. -/
theorem slots_of_decode {s s' : ByteStream} {pool : ConstantPool}
    (h : decode s = .ok (pool, s')) :
    ∃ (count : UInt16) (body : ByteStream) (entries : List PoolEntry),
      Decoder.u2 s = .ok (count, body)
      ∧ Decoder.times entries.length PoolEntry.decode body = .ok (entries, s')
      ∧ pool.slots = (entries.flatMap filling).take pool.slots.length
      ∧ pool.slots.length = max count.toNat 1 - 1
      ∧ pool.slots[0]? ≠ some .unusable
      ∧ (∀ i entry next, pool.slots[i]? = some entry → pool.slots[i + 1]? = some next →
          (next = .unusable ↔ entry.isWide = true))
      ∧ (∀ index : UInt16, (∃ entry, pool.entryAt index = .ok entry)
          ↔ 1 ≤ index.toNat ∧ index.toNat ≤ pool.slots.length
            ∧ pool.slots[index.toNat - 1]? ≠ some .unusable)
      ∧ ∀ k entry, entries[k]? = some entry → ∃ index : UInt16,
          index.toNat = 1 + ((entries.take k).map width).sum
            ∧ pool.entryAt index = .ok entry := by
  obtain ⟨count, body, hcount, hpool⟩ := Decoder.bind_eq_ok_iff.1 h
  obtain ⟨slots, between, hslots, hmk⟩ := Decoder.bind_eq_ok_iff.1 hpool
  obtain ⟨rfl, rfl⟩ := Decoder.pure_eq_ok_iff.1 hmk
  obtain ⟨entries, htimes, hfills⟩ := fills_of_decodeSlots hslots
  have hlength := hfills.length_eq
  have hcount_lt : count.toNat < 65536 := count.toNat_lt
  refine ⟨count, body, entries, hcount, htimes, ?_, ?_, ?_, ?_, ?_, ?_⟩
  · rw [hlength]
    exact hfills.slots_eq
  · dsimp only
    omega
  · rw [← List.head?_eq_getElem?]
    exact hfills.paired.1
  · intro i entry next hentry hnext
    exact (hfills.paired.follows hentry hnext).symm
  · intro index
    constructor
    · rintro ⟨entry, hentry⟩
      obtain ⟨hpos, hslot, hne⟩ := entryAt_eq_ok_iff.1 hentry
      have hlt := (List.getElem?_eq_some_iff.1 hslot).1
      refine ⟨hpos, by omega, ?_⟩
      rw [hslot]
      exact fun heq => hne (Option.some.inj heq)
    · -- the slot is there, so all that can be wrong with it is that it is not usable
      rintro ⟨hpos, hle, hne⟩
      have hslot := List.getElem?_eq_getElem (l := slots) (i := index.toNat - 1) (by
        dsimp only at hle
        omega)
      refine ⟨_, entryAt_eq_ok_iff.2 ⟨hpos, hslot, ?_⟩⟩
      intro heq
      exact hne (by rw [hslot, heq])
  · intro k entry hentry
    have hslot := hfills.getElem?_eq hentry
    have hlt := hfills.begins k (List.getElem?_eq_some_iff.1 hentry).1
    -- the slots are fewer than indices, so the index fits its two bytes
    have hindex : (UInt16.ofNat (1 + ((entries.take k).map width).sum)).toNat
        = 1 + ((entries.take k).map width).sum :=
      UInt16.toNat_ofNat_of_lt' (show _ < 65536 by omega)
    refine ⟨_, hindex, entryAt_eq_ok_iff.2 ⟨by omega, ?_, ?_⟩⟩
    · rw [hindex, Nat.add_sub_cancel_left]
      exact hslot
    · exact hfills.usable entry (List.mem_of_getElem? hentry)

/-- A pool whose last slot holds a wide entry. -/
def wideLast : ConstantPool := ⟨[.long 42, .unusable, .double 1]⟩

/-- The last entry is found in the only slot that is left for it, and behind it there is nothing. -/
theorem slots_of_decode_of_wideLast :
    decode ⟨wideLast.layout ++ [0xff], 8⟩ = .ok (wideLast, ⟨[0xff], 28⟩)
      ∧ (∃ count body, Decoder.u2 ⟨wideLast.layout ++ [0xff], 8⟩ = .ok (count, body)
        ∧ wideLast.slots.length = max count.toNat 1 - 1)
      ∧ (∃ entry, wideLast.entryAt 3 = .ok entry)
      ∧ ¬ ∃ entry, wideLast.entryAt 4 = .ok entry := by
  have hwellFormed : wideLast.WellFormed := ⟨by decide, by decide, by decide⟩
  have hread : decode ⟨wideLast.layout ++ [0xff], 8⟩ = .ok (wideLast, ⟨[0xff], 28⟩) :=
    reads hwellFormed _ 8
  obtain ⟨count, body, -, hcount, -, -, hlength, -, -, hindices, -⟩ := slots_of_decode hread
  refine ⟨hread, ⟨count, body, hcount, hlength⟩, (hindices 3).2 (by decide), ?_⟩
  rw [hindices 4]
  decide

end ConstantPool

end NativeHeaders
