import NativeHeaders.Proofs.Header.Prototypes
import NativeHeaders.Proofs.Symbol.Injectivity

/-!
# When native methods cannot be told apart

A class has no header when two of its native methods would be linked under one symbol. That is so
exactly when they are declared alike, with one name and one list of parameters, wherever they stand
and whatever they return (`ofClass_error_iff_alike`).

Two arguments meet here. The scan for a taken symbol stops at the first prototype whose symbol an
earlier one has; its invariant is that the symbols seen so far are distinct, so that the earlier
one is unique. And symbols repeat exactly where declarations do: both symbols of a pair of alike
methods carry their parameters, since they share a name, while a symbol with parameters never meets
one without, since no name of a method holds a separator.
-/

set_option autoImplicit false

namespace NativeHeaders

namespace NativeDecl

/-- Whether a native method can be linked: its descriptor can be read, and its name holds no
separator. -/
structure Linkable (d : NativeDecl) : Prop where
  readable : ∃ m, MethodDescriptor.parse d.descriptor = .ok m
  plain : '/' ∉ d.name.toList ∧ '.' ∉ d.name.toList

/-- Whether two native methods have one name and one list of parameters. -/
def Alike (d d' : NativeDecl) : Prop :=
  d.name = d'.name ∧ ∃ m m', MethodDescriptor.parse d.descriptor = .ok m
    ∧ MethodDescriptor.parse d'.descriptor = .ok m' ∧ m.parameters = m'.parameters

/-- The symbol of a native method among those of its class. -/
def symbol (className : String) (decls : List NativeDecl) (d : NativeDecl) : Symbol :=
  Symbol.link className d.name d.descriptor (isShared decls d.name)

end NativeDecl

/-! ## Parameters and their spelling -/

theorem Descriptor.printAll_inj {types types' : List FieldType}
    (hlegal : ∀ type ∈ types, type.Legal) (hlegal' : ∀ type ∈ types', type.Legal)
    (h : printAll types = printAll types') : types = types' := by
  have hread : parametersAt 0 (printAll types ++ [')'])
      = .ok (types, 0 + byteLength (printAll types) + 1, []) :=
    parametersAt_eq_ok_iff.2 ⟨hlegal, rfl, rfl⟩
  have hread' : parametersAt 0 (printAll types' ++ [')'])
      = .ok (types', 0 + byteLength (printAll types') + 1, []) :=
    parametersAt_eq_ok_iff.2 ⟨hlegal', rfl, rfl⟩
  rw [h, hread', Except.ok.injEq] at hread
  exact (Prod.mk.inj hread).1.symm

namespace Symbol

theorem parameterPortion_eq_iff {descriptor descriptor' : String} {m m' : MethodDescriptor}
    (h : MethodDescriptor.parse descriptor = .ok m)
    (h' : MethodDescriptor.parse descriptor' = .ok m') :
    parameterPortion descriptor.toList = parameterPortion descriptor'.toList
      ↔ m.parameters = m'.parameters := by
  rw [parameterPortion_eq_printAll h, parameterPortion_eq_printAll h']
  constructor
  · exact Descriptor.printAll_inj (MethodDescriptor.parse_eq_ok_iff.1 h).2.1
      (MethodDescriptor.parse_eq_ok_iff.1 h').2.1
  · intro hparameters
    rw [hparameters]

/-! ## Symbols within a class -/

/-- What a symbol spells behind its class. -/
def spelledTail (method descriptor : String) (overloaded : Bool) : List Char :=
  method.toList ++ if overloaded then '/' :: '/' :: parameterPortion descriptor.toList else []

theorem toList_spelled (className method descriptor : String) (overloaded : Bool) :
    (spelled className method descriptor overloaded).toList
      = className.toList ++ '/' :: spelledTail method descriptor overloaded := by
  have hslash : "/".toList = ['/'] := rfl
  have hslashes : "//".toList = ['/', '/'] := rfl
  cases overloaded <;> simp [spelled, spelledTail, hslash, hslashes]

variable {className : String} {d d' : NativeDecl} {o o' : Bool}

theorem dot_not_mem_spelledTail (h : d.Linkable) (o : Bool) :
    '.' ∉ spelledTail d.name d.descriptor o := by
  obtain ⟨m, hm⟩ := h.readable
  have hportion : '.' ∉ parameterPortion d.descriptor.toList := by
    rw [parameterPortion_eq_printAll hm]
    exact Descriptor.not_mem_printAll (MethodDescriptor.parse_eq_ok_iff.1 hm).2.1 (by simp)
  cases o <;> simp [spelledTail, h.plain.2, hportion]

/-- Of two symbols in one class the class itself can be left out, whatever its name is. -/
theorem fullName_eq_iff_tail (h : d.Linkable) (h' : d'.Linkable) :
    (link className d.name d.descriptor o).fullName
        = (link className d'.name d'.descriptor o').fullName
      ↔ spelledTail d.name d.descriptor o = spelledTail d'.name d'.descriptor o' := by
  have htail : ∀ {n : NativeDecl} {p : Bool}, n.Linkable →
      (spelledTail n.name n.descriptor p).map (fun c => if c = '.' then '/' else c)
        = spelledTail n.name n.descriptor p := by
    intro n p hn
    conv_rhs => rw [← List.map_id (spelledTail n.name n.descriptor p)]
    apply List.map_congr_left
    intro c hc
    have hdot : c ≠ '.' := fun heq => dot_not_mem_spelledTail hn p (heq ▸ hc)
    rw [if_neg hdot, id]
  rw [fullName_eq_iff, ClassModel.internalName, ClassModel.internalName, String.ofList_inj,
    toList_spelled, toList_spelled, List.map_append, List.map_append, List.append_cancel_left_eq,
    List.map_cons, List.map_cons, List.cons.injEq, htail h, htail h']
  simp

/-- **When two symbols of a class are one.** The methods have one name, and either neither symbol
has parameters or both have the same. -/
theorem fullName_eq_iff_alike (h : d.Linkable) (h' : d'.Linkable) :
    (link className d.name d.descriptor o).fullName
        = (link className d'.name d'.descriptor o').fullName
      ↔ d.name = d'.name ∧ (o = false ∧ o' = false ∨ o = true ∧ o' = true ∧ d.Alike d') := by
  obtain ⟨m, hm⟩ := h.readable
  obtain ⟨m', hm'⟩ := h'.readable
  have halike : d.Alike d' ↔ d.name = d'.name
      ∧ parameterPortion d.descriptor.toList = parameterPortion d'.descriptor.toList := by
    rw [parameterPortion_eq_iff hm hm', NativeDecl.Alike]
    simp [hm, hm']
  rw [fullName_eq_iff_tail h h', halike]
  cases o <;> cases o'
  · simp [spelledTail, String.toList_inj]
  · -- only one of the two texts holds a separator
    simp only [spelledTail, Bool.false_eq_true, if_false, if_true, List.append_nil]
    refine iff_of_false (fun heq => h.plain.1 ?_) (by simp)
    rw [heq]
    simp
  · simp only [spelledTail, Bool.false_eq_true, if_false, if_true, List.append_nil]
    refine iff_of_false (fun heq => h'.plain.1 ?_) (by simp)
    rw [← heq]
    simp
  · rw [spelledTail, spelledTail, if_pos rfl, if_pos rfl]
    constructor
    · intro heq
      obtain ⟨hname, hback⟩ := Text.front_inj h.plain.1 h'.plain.1 heq
      have hname : d.name = d'.name := String.toList_inj.1 hname
      exact ⟨hname, .inr ⟨rfl, rfl, hname, (List.cons.inj hback).2⟩⟩
    · rintro ⟨hname, ⟨hf, -⟩ | ⟨-, -, -, hportion⟩⟩
      · contradiction
      · rw [hname, hportion]

end Symbol

/-! ## Symbols repeat where declarations do -/

namespace NativeDecl

variable {className : String} {decls : List NativeDecl}

/-- Native methods that are declared alike have one symbol, with parameters or without. -/
theorem Alike.fullName_symbol_eq {d d' : NativeDecl} (h : d.Alike d') :
    (symbol className decls d).fullName = (symbol className decls d').fullName := by
  obtain ⟨hname, m, m', hm, hm', hparameters⟩ := h
  have hportion := (Symbol.parameterPortion_eq_iff hm hm').2 hparameters
  rw [symbol, symbol, hname, Symbol.link, Symbol.link, Symbol.escapeParameters,
    Symbol.escapeParameters, hportion]

/-- Two native methods of one name share it. -/
theorem isShared_of_split {front middle back : List NativeDecl} {d d' : NativeDecl}
    (hsplit : decls = front ++ d :: (middle ++ d' :: back)) (hname : d.name = d'.name) :
    isShared decls d.name = true := by
  rw [isShared, decide_eq_true_iff, hsplit, List.filter_append, List.length_append,
    List.filter_cons_of_pos (by simp), List.length_cons, List.filter_append, List.length_append,
    List.filter_cons_of_pos (by simp [hname]), List.length_cons]
  omega

/-- Where a symbol repeats, a declaration does, and both symbols have parameters. -/
theorem alike_of_fullName_symbol_eq {front middle back : List NativeDecl} {d d' : NativeDecl}
    (hsplit : decls = front ++ d :: (middle ++ d' :: back)) (h : d.Linkable) (h' : d'.Linkable)
    (heq : (symbol className decls d).fullName = (symbol className decls d').fullName) :
    d.Alike d' ∧ isShared decls d.name = true ∧ isShared decls d'.name = true := by
  obtain ⟨hname, hcases⟩ := (Symbol.fullName_eq_iff_alike h h').1 heq
  have hshared := isShared_of_split hsplit hname
  rcases hcases with ⟨hf, -⟩ | ⟨-, ht, halike⟩
  · rw [hshared] at hf
    contradiction
  · exact ⟨halike, hshared, ht⟩

end NativeDecl

/-! ## The scan -/

namespace Header

/-- The symbols that prototypes take, the last one first. -/
def taken (seen : List Prototype) : List (String × String) :=
  (seen.map fun p => (p.symbol.fullName, p.descriptor)).reverse

theorem taken_append (seen : List Prototype) (p : Prototype) :
    taken (seen ++ [p]) = (p.symbol.fullName, p.descriptor) :: taken seen := by
  simp [taken]

theorem exists_of_lookup_taken {seen : List Prototype} {name descriptor : String}
    (h : (taken seen).lookup name = some descriptor) :
    ∃ p ∈ seen, p.symbol.fullName = name ∧ p.descriptor = descriptor := by
  obtain ⟨before, after, hsplit, -⟩ := List.lookup_eq_some_iff.1 h
  have hmem : (name, descriptor) ∈ taken seen := by simp [hsplit]
  simpa [taken] using hmem

theorem not_mem_of_lookup_taken {seen : List Prototype} {name : String}
    (h : (taken seen).lookup name = none) : name ∉ seen.map fun p => p.symbol.fullName := by
  rw [List.lookup_eq_none_iff] at h
  intro hmem
  obtain ⟨p, hp, rfl⟩ := List.mem_map.1 hmem
  have hne := h (p.symbol.fullName, p.descriptor) (by simpa [taken] using ⟨p, hp, rfl, rfl⟩)
  simp at hne

/-- What the scan finds: a prototype whose symbol an earlier one has, while all before it are
distinct. -/
def FirstClash (className : String) (prototypes : List Prototype) (e : GenerationError) : Prop :=
  ∃ front p middle q back, prototypes = front ++ p :: (middle ++ q :: back)
    ∧ p.symbol.fullName = q.symbol.fullName
    ∧ ((front ++ p :: middle).map fun r => r.symbol.fullName).Nodup
    ∧ e = .ambiguousSymbol className q.method q.symbol.fullName p.descriptor q.descriptor

/-- The scan goes on with what it has seen; the induction is on what is left, and the symbols seen
are distinct throughout. -/
theorem clash?_taken (className : String) (seen prototypes : List Prototype)
    (hseen : (seen.map fun p => p.symbol.fullName).Nodup) :
    match clash? className (taken seen) prototypes with
    | none => ((seen ++ prototypes).map fun p => p.symbol.fullName).Nodup
    | some e => FirstClash className (seen ++ prototypes) e := by
  induction prototypes generalizing seen with
  | nil => simpa [clash?] using hseen
  | cons q prototypes ih =>
    rw [clash?]
    rcases hlookup : (taken seen).lookup q.symbol.fullName with _ | first
    · have hfresh := not_mem_of_lookup_taken hlookup
      have hnext : ((seen ++ [q]).map fun p => p.symbol.fullName).Nodup := by
        rw [List.map_append, List.map_singleton, ← List.concat_eq_append]
        exact hseen.concat hfresh
      have hrest := ih _ hnext
      rw [taken_append, List.append_assoc, List.singleton_append] at hrest
      exact hrest
    · obtain ⟨p, hp, hsymbol, hdescriptor⟩ := exists_of_lookup_taken hlookup
      obtain ⟨front, middle, rfl⟩ := List.append_of_mem hp
      refine ⟨front, p, middle, q, prototypes, ?_, hsymbol, hseen, ?_⟩
      · simp
      · rw [hdescriptor]

theorem clash?_eq_none {className : String} {prototypes : List Prototype}
    (h : clash? className [] prototypes = none) :
    (prototypes.map fun p => p.symbol.fullName).Nodup := by
  have hscan := clash?_taken className [] prototypes List.nodup_nil
  rw [show taken [] = [] from rfl, h] at hscan
  exact hscan

theorem clash?_eq_some {className : String} {prototypes : List Prototype} {e : GenerationError}
    (h : clash? className [] prototypes = some e) : FirstClash className prototypes e := by
  have hscan := clash?_taken className [] prototypes List.nodup_nil
  rw [show taken [] = [] from rfl, h] at hscan
  exact hscan

/-! ## From prototypes to declarations -/

/-- What the scan looks at, read off the declarations. -/
theorem map_prototypes {c : ClassModel} {prototypes : List Prototype}
    (h : prototypesOf c = .ok prototypes) :
    prototypes.map (fun p => (p.method, p.descriptor, p.symbol))
      = c.nativeDecls.map fun d =>
          (d.name, d.descriptor, NativeDecl.symbol c.name c.nativeDecls d) := by
  have hrel := mapM_eq_ok_iff.1 (prototypesOf_eq_ok_iff.1 h)
  rw [← List.forall₂_eq_eq_eq, List.forall₂_map_left_iff, List.forall₂_map_right_iff]
  refine List.Forall₂.imp ?_ hrel.flip
  intro p d hp
  obtain ⟨hmethod, hdescriptor, hsymbol, -⟩ := prototype_eq_ok_iff.1 hp
  rw [hmethod, hdescriptor, hsymbol, NativeDecl.symbol]

theorem map_fullName_prototypes {c : ClassModel} {prototypes : List Prototype}
    (h : prototypesOf c = .ok prototypes) :
    (prototypes.map fun p => p.symbol.fullName)
      = c.nativeDecls.map fun d => (NativeDecl.symbol c.name c.nativeDecls d).fullName := by
  have hnames := congrArg (List.map fun label => label.2.2.fullName) (map_prototypes h)
  rwa [List.map_map, List.map_map] at hnames

/-- Native methods that can be linked have prototypes. -/
theorem exists_prototypesOf {c : ClassModel} (h : ∀ d ∈ c.nativeDecls, d.Linkable) :
    ∃ prototypes, prototypesOf c = .ok prototypes :=
  exists_prototypesOf_of_readable fun d hd => (h d hd).readable

/-- After the prototypes only the scan can fail. -/
theorem ofClass_eq_error_iff {settings : Settings} {c : ClassModel} {prototypes : List Prototype}
    {e : GenerationError} (h : prototypesOf c = .ok prototypes) :
    ofClass settings c = .error e ↔ clash? c.name [] prototypes = some e := by
  rw [ofClass, h]
  split
  · -- a class without native methods has no prototypes to scan
    rename_i hskip
    have hempty : c.nativeDecls = [] := by
      have hnatives : c.hasNatives = false := by simp_all
      rw [hasNatives_eq] at hnatives
      simpa using hnatives
    have hnone : prototypes = [] := by
      have hlabels := map_prototypes h
      rw [hempty, List.map_nil, List.map_eq_nil_iff] at hlabels
      exact hlabels
    simp [hnone, clash?]
  · dsimp only [bind, Except.bind]
    rcases clash? c.name [] prototypes with _ | e'
    · simp [pure, Except.pure]
    · simp [throw, throwThe, MonadExceptOf.throw]

/-- Where prototypes are split, so are the declarations that they come from. -/
theorem exists_split {c : ClassModel} {fronts middles backs : List Prototype} {p q : Prototype}
    (h : prototypesOf c = .ok (fronts ++ p :: (middles ++ q :: backs))) :
    ∃ front first middle second back,
      c.nativeDecls = front ++ first :: (middle ++ second :: back)
      ∧ ((front ++ first :: middle).map fun d =>
            (NativeDecl.symbol c.name c.nativeDecls d).fullName)
          = ((fronts ++ p :: middles).map fun r => r.symbol.fullName)
      ∧ first.descriptor = p.descriptor
      ∧ NativeDecl.symbol c.name c.nativeDecls first = p.symbol
      ∧ second.name = q.method
      ∧ second.descriptor = q.descriptor
      ∧ NativeDecl.symbol c.name c.nativeDecls second = q.symbol := by
  have hlabels := map_prototypes h
  rw [List.map_append, List.map_cons, List.map_append, List.map_cons] at hlabels
  obtain ⟨front, rest, hdecls, hfront, hrest⟩ := List.map_eq_append_iff.1 hlabels.symm
  obtain ⟨first, rest, rfl, hfirst, hrest⟩ := List.map_eq_cons_iff.1 hrest
  obtain ⟨middle, rest, rfl, hmiddle, hrest⟩ := List.map_eq_append_iff.1 hrest
  obtain ⟨second, back, rfl, hsecond, -⟩ := List.map_eq_cons_iff.1 hrest
  simp only [Prod.mk.injEq] at hfirst hsecond
  obtain ⟨-, hfirstDescriptor, hfirstSymbol⟩ := hfirst
  obtain ⟨hsecondName, hsecondDescriptor, hsecondSymbol⟩ := hsecond
  refine ⟨front, first, middle, second, back, hdecls, ?_, hfirstDescriptor, hfirstSymbol,
    hsecondName, hsecondDescriptor, hsecondSymbol⟩
  have hfronts := congrArg (List.map fun label => label.2.2.fullName) hfront
  have hmiddles := congrArg (List.map fun label => label.2.2.fullName) hmiddle
  rw [List.map_map, List.map_map] at hfronts hmiddles
  rw [List.map_append, List.map_append, List.map_cons, List.map_cons, hfirstSymbol]
  exact congrArg₂ (fun xs ys => xs ++ _ :: ys) hfronts hmiddles

/-- Whether an error names the first native method, in the order of declaration, that is declared
like an earlier one, that earlier method, and the symbol that both would have. -/
def NamesFirstAlike (c : ClassModel) (e : GenerationError) : Prop :=
  ∃ front first middle second back,
    c.nativeDecls = front ++ first :: (middle ++ second :: back)
    ∧ first.Alike second
    ∧ (front ++ first :: middle).Pairwise (fun d d' => ¬ d.Alike d')
    ∧ (Symbol.link c.name first.name first.descriptor true).fullName
        = (Symbol.link c.name second.name second.descriptor true).fullName
    ∧ e = .ambiguousSymbol c.name second.name
        (Symbol.link c.name second.name second.descriptor true).fullName
        first.descriptor second.descriptor

/-- Behind the first clash of symbols stand the first declarations that are alike. -/
theorem FirstClash.alike {c : ClassModel} {prototypes : List Prototype} {e : GenerationError}
    (hlinkable : ∀ d ∈ c.nativeDecls, d.Linkable) (h : prototypesOf c = .ok prototypes)
    (hclash : FirstClash c.name prototypes e) : NamesFirstAlike c e := by
  obtain ⟨fronts, p, middles, q, backs, rfl, hsame, hdistinct, rfl⟩ := hclash
  obtain ⟨front, first, middle, second, back, hdecls, hnames, hfirstDescriptor, hfirstSymbol,
    hsecondName, hsecondDescriptor, hsecondSymbol⟩ := exists_split h
  have hsymbols : (NativeDecl.symbol c.name c.nativeDecls first).fullName
      = (NativeDecl.symbol c.name c.nativeDecls second).fullName := by
    rw [hfirstSymbol, hsecondSymbol, hsame]
  obtain ⟨halike, hshared, hshared'⟩ := NativeDecl.alike_of_fullName_symbol_eq hdecls
    (hlinkable first (by simp [hdecls])) (hlinkable second (by simp [hdecls])) hsymbols
  have hpairwise : (front ++ first :: middle).Pairwise fun d d' => ¬ d.Alike d' := by
    rw [← hnames, List.Nodup, List.pairwise_map] at hdistinct
    exact hdistinct.imp fun hne halike => hne halike.fullName_symbol_eq
  -- the parameters of both are in their symbols
  rw [NativeDecl.symbol, hshared] at hsymbols
  rw [NativeDecl.symbol, hshared'] at hsymbols hsecondSymbol
  refine ⟨front, first, middle, second, back, hdecls, halike, hpairwise, hsymbols, ?_⟩
  rw [hsecondSymbol, hsecondName, hsecondDescriptor, hfirstDescriptor]

/-- **Ambiguity is reported exactly where it exists.** For native methods that can be linked there
is an error just when two of them, in different positions, are declared alike. The error then names
the first method in the order of declaration that repeats an earlier one, that earlier method, and
the symbol that both would have. Without an error all symbols of the header are distinct. -/
theorem ofClass_error_iff_alike (settings : Settings) (c : ClassModel)
    (hlinkable : ∀ d ∈ c.nativeDecls, d.Linkable) :
    ((∃ e, ofClass settings c = .error e) ↔
      ∃ (i j : Nat) (d d' : NativeDecl),
        i ≠ j ∧ c.nativeDecls[i]? = some d ∧ c.nativeDecls[j]? = some d' ∧ d.Alike d')
    ∧ (∀ e, ofClass settings c = .error e → NamesFirstAlike c e)
    ∧ (∀ header, ofClass settings c = .ok (some header) →
        (header.prototypes.map fun p => p.symbol.fullName).Nodup) := by
  obtain ⟨prototypes, hp⟩ := exists_prototypesOf hlinkable
  have herror : ∀ e, ofClass settings c = .error e → FirstClash c.name prototypes e :=
    fun e he => clash?_eq_some ((ofClass_eq_error_iff hp).1 he)
  refine ⟨⟨?_, ?_⟩, fun e he => (herror e he).alike hlinkable hp, ?_⟩
  · rintro ⟨e, he⟩
    obtain ⟨front, first, middle, second, back, hdecls, halike, -⟩ :=
      (herror e he).alike hlinkable hp
    refine ⟨front.length, front.length + (middle.length + 1), first, second, by omega, ?_, ?_,
      halike⟩
    · simp [hdecls]
    · simp [hdecls]
  · rintro ⟨i, j, d, d', hne, hi, hj, halike⟩
    rcases hclash : clash? c.name [] prototypes with _ | e
    · -- alike methods have one symbol, and distinct symbols would put them in one position
      have hdistinct := clash?_eq_none hclash
      rw [map_fullName_prototypes hp] at hdistinct
      have hbound : i < (c.nativeDecls.map fun d =>
          (NativeDecl.symbol c.name c.nativeDecls d).fullName).length := by
        rw [List.length_map]
        exact (List.getElem?_eq_some_iff.1 hi).1
      have hij : i = j := by
        apply (List.getElem?_inj hbound hdistinct).1
        rw [List.getElem?_map, List.getElem?_map, hi, hj, Option.map_some, Option.map_some,
          halike.fullName_symbol_eq]
      exact absurd hij hne
    · exact ⟨e, (ofClass_eq_error_iff hp).2 hclash⟩
  · intro header hheader
    have hprototypes := prototypesOf_of_ofClass hheader
    rcases hclash : clash? c.name [] header.prototypes with _ | e
    · exact clash?_eq_none hclash
    · rw [(ofClass_eq_error_iff hprototypes).2 hclash] at hheader
      contradiction

/-- A class in which two native methods differ in what they return and in being static only. -/
def twins : ClassModel where
  name := "p.Q"
  enclosing := []
  methods := [
    ⟨"f", "([Lp/Q;I)V", true, false, true, false⟩,
    ⟨"f", "([Lp/Q;J)V", true, false, true, false⟩,
    ⟨"f", "([Lp/Q;I)V", false, false, true, false⟩,
    ⟨"f", "([Lp/Q;I)[J", true, true, true, false⟩]
  constants := []

theorem ofClass_error_of_twins :
    (∀ d ∈ twins.nativeDecls, d.Linkable) ∧ ∃ e, ofClass {} twins = .error e := by
  have hvoid : MethodDescriptor.parse "([Lp/Q;I)V"
      = .ok ⟨[.array (.object "p/Q"), .primitive .int], .void⟩ :=
    MethodDescriptor.parse_eq_ok_iff.2 ⟨by decide, by decide⟩
  have hlong : MethodDescriptor.parse "([Lp/Q;J)V"
      = .ok ⟨[.array (.object "p/Q"), .primitive .long], .void⟩ :=
    MethodDescriptor.parse_eq_ok_iff.2 ⟨by decide, by decide⟩
  have harray : MethodDescriptor.parse "([Lp/Q;I)[J"
      = .ok ⟨[.array (.object "p/Q"), .primitive .int], .value (.array (.primitive .long))⟩ :=
    MethodDescriptor.parse_eq_ok_iff.2 ⟨by decide, by decide⟩
  have hlinkable : ∀ d ∈ twins.nativeDecls, d.Linkable := by
    have hdecls : twins.nativeDecls = [⟨"f", "([Lp/Q;I)V", false⟩, ⟨"f", "([Lp/Q;J)V", false⟩,
        ⟨"f", "([Lp/Q;I)[J", true⟩] := rfl
    rw [hdecls]
    simp only [List.forall_mem_cons]
    exact ⟨⟨⟨_, hvoid⟩, by decide⟩, ⟨⟨_, hlong⟩, by decide⟩, ⟨⟨_, harray⟩, by decide⟩, nofun⟩
  exact ⟨hlinkable, (ofClass_error_iff_alike {} twins hlinkable).1.2
    ⟨0, 2, _, _, by decide, rfl, rfl, rfl, _, _, hvoid, harray, rfl⟩⟩

end Header

end NativeHeaders
