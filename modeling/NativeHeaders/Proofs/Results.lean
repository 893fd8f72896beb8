import Mathlib.Data.List.Forall2

/-!
# Results in a row

Something that may fail is done for each item of a list, and the first failure ends it. The two
outcomes are described apart: success item by item (`mapM_eq_ok_iff`), and failure by the first
item that fails (`mapM_eq_error_iff`), which does not ask what the items before it gave. A program
with a state goes on from the result and the state that its first step ends with (`bind_of_run`).
-/

set_option autoImplicit false

namespace NativeHeaders

variable {α β ε : Type}

/-- The error of a result, if it is one. -/
def failure? : Except ε β → Option ε
  | .ok _ => none
  | .error e => some e

@[simp] theorem failure?_ok (b : β) : failure? (.ok b : Except ε β) = none := rfl

@[simp] theorem failure?_error (e : ε) : failure? (.error e : Except ε β) = some e := rfl

theorem failure?_eq_some_iff {result : Except ε β} {e : ε} :
    failure? result = some e ↔ result = .error e := by
  rcases result with e' | b
  · rw [failure?_error, Option.some.injEq, Except.error.injEq]
  · rw [failure?_ok]
    exact ⟨fun h => (nomatch h), fun h => (nomatch h)⟩

theorem mapM_cons_except (f : α → Except ε β) (a : α) (as : List α) :
    (a :: as).mapM f =
      match f a with
      | .error e => .error e
      | .ok b =>
        match as.mapM f with
        | .error e => .error e
        | .ok bs => .ok (b :: bs) := by
  rw [List.mapM_cons]
  rcases f a with e | b
  · rfl
  · rcases as.mapM f with e | bs
    · rfl
    · rfl

/-- What is done for the items of a list is all that counts. -/
theorem mapM_congr {f g : α → Except ε β} {as : List α} (h : ∀ a ∈ as, f a = g a) :
    as.mapM f = as.mapM g := by
  induction as with
  | nil => rfl
  | cons a as ih =>
    obtain ⟨ha, has⟩ := List.forall_mem_cons.1 h
    rw [mapM_cons_except, mapM_cons_except, ha, ih has]

/-- Everything succeeds when each item does. -/
theorem mapM_eq_ok_iff {f : α → Except ε β} {as : List α} {bs : List β} :
    as.mapM f = .ok bs ↔ List.Forall₂ (fun a b => f a = .ok b) as bs := by
  induction as generalizing bs with
  | nil =>
    rw [List.mapM_nil, List.forall₂_nil_left_iff]
    exact ⟨fun h => (Except.ok.inj h).symm, fun h => by rw [h]; rfl⟩
  | cons a as ih =>
    rw [mapM_cons_except, List.forall₂_cons_left_iff]
    constructor
    · intro h
      split at h
      · contradiction
      · rename_i b hb
        split at h
        · contradiction
        · rename_i others hothers
          rw [← Except.ok.inj h]
          exact ⟨b, others, hb, ih.1 hothers, rfl⟩
    · rintro ⟨b, others, hb, hothers, rfl⟩
      rw [hb, ih.2 hothers]

/-- Where everything succeeds, each item does, and its result stands in its position. -/
theorem getElem?_of_mapM_eq_ok {f : α → Except ε β} {as : List α} {bs : List β}
    (h : as.mapM f = .ok bs) {i : Nat} {a : α} (ha : as[i]? = some a) :
    ∃ b, bs[i]? = some b ∧ f a = .ok b := by
  have hrel := mapM_eq_ok_iff.1 h
  obtain ⟨hi, hget⟩ := List.getElem?_eq_some_iff.1 ha
  have hi' : i < bs.length := hrel.length_eq ▸ hi
  refine ⟨bs[i], List.getElem?_eq_getElem hi', ?_⟩
  rw [← hget]
  exact hrel.get hi hi'

/-- Where everything succeeds, each result is that of the item in its position. -/
theorem exists_of_mapM_eq_ok {f : α → Except ε β} {as : List α} {bs : List β}
    (h : as.mapM f = .ok bs) {b : β} (hb : b ∈ bs) : ∃ a ∈ as, f a = .ok b := by
  have hrel := mapM_eq_ok_iff.1 h
  obtain ⟨i, hi, rfl⟩ := List.mem_iff_getElem.1 hb
  have hi' : i < as.length := hrel.length_eq.symm ▸ hi
  exact ⟨as[i], List.getElem_mem hi', hrel.get hi' hi⟩

/-- The first failure decides the error. -/
theorem mapM_eq_error_iff {f : α → Except ε β} {as : List α} {e : ε} :
    as.mapM f = .error e ↔ as.findSome? (fun a => failure? (f a)) = some e := by
  induction as with
  | nil =>
    rw [List.mapM_nil, List.findSome?_nil]
    exact ⟨fun h => (nomatch h), fun h => (nomatch h)⟩
  | cons a as ih =>
    rw [mapM_cons_except, List.findSome?_cons]
    rcases ha : f a with e' | b
    · simp only [failure?_error, Except.error.injEq, Option.some.injEq]
    · simp only [failure?_ok]
      rw [← ih]
      rcases as.mapM f with e' | bs
      · simp only [Except.error.injEq]
      · exact ⟨fun h => (nomatch h), fun h => (nomatch h)⟩

theorem failure?_mapM (f : α → Except ε β) (as : List α) :
    failure? (as.mapM f) = as.findSome? fun a => failure? (f a) := by
  rcases h : as.mapM f with e | bs
  · exact (mapM_eq_error_iff.1 h).symm
  · rw [failure?_ok, eq_comm, Option.eq_none_iff_forall_ne_some]
    intro e he
    rw [mapM_eq_error_iff.2 he] at h
    contradiction

/-! ## Programs with a state -/

section States

variable {σ τ : Type} {s s' : σ} {t t' : τ} {a : α}

theorem bind_of_run {x : StateM σ α} (h : x s = (a, s')) (f : α → StateM σ β) :
    (x >>= f) s = f a s' := by
  have hbind : (x >>= f) s = f (x s).1 (x s).2 := rfl
  rw [hbind, h]

theorem bind_of_run₂ {x : StateT σ (StateM τ) α} (h : x s t = ((a, s'), t'))
    (f : α → StateT σ (StateM τ) β) : (x >>= f) s t = f a s' t' := by
  have hbind : (x >>= f) s t = f (x s t).1.1 (x s t).1.2 (x s t).2 := rfl
  rw [hbind, h]

theorem bind_of_run_some {x : StateT σ (OptionT (StateM τ)) α}
    (h : (x s).run t = (some (a, s'), t')) (f : α → StateT σ (OptionT (StateM τ)) β) :
    ((x >>= f) s).run t = (f a s').run t' := by
  have hbind : ((x >>= f) s).run = (OptionT.bind (x s) fun r => f r.1 r.2).run := rfl
  rw [hbind, OptionT.bind]
  exact bind_of_run h _

/-- Nothing follows when a program was ended. -/
theorem bind_of_run_none {x : StateT σ (OptionT (StateM τ)) α}
    (h : (x s).run t = (none, t')) (f : α → StateT σ (OptionT (StateM τ)) β) :
    ((x >>= f) s).run t = (none, t') := by
  have hbind : ((x >>= f) s).run = (OptionT.bind (x s) fun r => f r.1 r.2).run := rfl
  rw [hbind, OptionT.bind]
  exact bind_of_run h _

end States

end NativeHeaders
