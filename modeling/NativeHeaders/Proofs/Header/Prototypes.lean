import Mathlib.Data.List.Perm.Basic
import NativeHeaders.Header.Analysis
import NativeHeaders.Proofs.ClassModel.Overloads
import NativeHeaders.Proofs.Descriptor.RoundTrip
import NativeHeaders.Proofs.Results

/-!
# The prototypes of a class in one pass

A header is made group by group and then put back into the order of declaration. Neither can be
seen in the result: the prototypes are what one pass over the native methods gives
(`prototypesOf_eq_ok_iff`), because the groups together are the native methods, each prototype
keeps the place of its method, and places increase strictly, so that sorting by place leaves a
single order.

What the order of the groups does decide is which of several bad descriptors is reported. Groups
come in the order in which their names are first seen, and that too is read off the native methods
alone (`prototypesOf_eq_error_iff`).
-/

set_option autoImplicit false

namespace NativeHeaders

/-- What a header shows of a native method. -/
structure NativeDecl where
  name : String
  descriptor : String
  isStatic : Bool
deriving DecidableEq

/-- What a header would show of a method. -/
def MethodModel.decl (m : MethodModel) : NativeDecl := ⟨m.name, m.descriptor, m.isStatic⟩

/-- The native methods of a class as a header shows them, in the order of declaration. -/
def ClassModel.nativeDecls (c : ClassModel) : List NativeDecl :=
  (c.methods.filter (·.isNative)).map MethodModel.decl

/-- Whether several native methods have a name. -/
def NativeDecl.isShared (decls : List NativeDecl) (name : String) : Bool :=
  decide (1 < (decls.filter fun d => d.name == name).length)

/-- A name is shared by a native method when one in another position has it too. -/
theorem NativeDecl.isShared_iff {decls : List NativeDecl} {i : Nat} {d : NativeDecl}
    (hd : decls[i]? = some d) :
    isShared decls d.name = true ↔ ∃ j d', j ≠ i ∧ decls[j]? = some d' ∧ d'.name = d.name := by
  obtain ⟨hi, hget⟩ := List.getElem?_eq_some_iff.1 hd
  have hperm : (d :: decls.eraseIdx i).Perm decls := hget ▸ List.getElem_cons_eraseIdx_perm hi
  -- the method itself is one of those that have its name
  have hlength : (decls.filter fun d' => d'.name == d.name).length
      = ((decls.eraseIdx i).filter fun d' => d'.name == d.name).length + 1 := by
    rw [← (hperm.filter _).length_eq, List.filter_cons_of_pos (by rw [beq_self_eq_true]),
      List.length_cons]
  rw [isShared, decide_eq_true_iff, hlength, Nat.lt_add_left_iff_pos, List.length_filter_pos_iff]
  constructor
  · rintro ⟨d', hmem, hname⟩
    obtain ⟨j, hne, hd'⟩ := List.mem_eraseIdx_iff_getElem?.1 hmem
    exact ⟨j, d', hne, hd', eq_of_beq hname⟩
  · rintro ⟨j, d', hne, hd', hname⟩
    exact ⟨d', List.mem_eraseIdx_iff_getElem?.2 ⟨j, hne, hd'⟩, beq_iff_eq.2 hname⟩

namespace Header

/-! ## One pass -/

/-- The prototype of a native method of a class. -/
def prototype (className : String) (overloaded : Bool) (d : NativeDecl) : Generated Prototype :=
  match Signature.ofDescriptor d.descriptor d.isStatic with
  | .error e => .error (GenerationError.ofDescriptor className d.name d.descriptor e)
  | .ok signature => .ok {
      method := d.name
      descriptor := d.descriptor
      symbol := Symbol.link className d.name d.descriptor overloaded
      signature }

/-- The prototypes of native methods in their order; those that share a name are overloaded. -/
def inOnePass (className : String) (decls : List NativeDecl) : Generated (List Prototype) :=
  decls.mapM fun d => prototype className (NativeDecl.isShared decls d.name) d

theorem prototype_eq_ok_iff {className : String} {overloaded : Bool} {d : NativeDecl}
    {p : Prototype} :
    prototype className overloaded d = .ok p ↔
      p.method = d.name ∧ p.descriptor = d.descriptor
        ∧ p.symbol = Symbol.link className d.name d.descriptor overloaded
        ∧ Signature.ofDescriptor d.descriptor d.isStatic = .ok p.signature := by
  unfold prototype
  rcases Signature.ofDescriptor d.descriptor d.isStatic with e | signature
  · exact ⟨fun h => (nomatch h), fun h => (nomatch h.2.2.2)⟩
  · constructor
    · intro h
      rw [← Except.ok.inj h]
      exact ⟨rfl, rfl, rfl, rfl⟩
    · rintro ⟨hmethod, hdescriptor, hsymbol, hsignature⟩
      rw [← hsymbol, ← hmethod, ← hdescriptor, Except.ok.inj hsignature]

/-- A prototype with its place. -/
theorem prototypeOf_eq (className : String) (overloaded : Bool) (native : NativeMethod) :
    prototypeOf className overloaded native =
      match prototype className overloaded native.method.decl with
      | .error e => .error e
      | .ok p => .ok ⟨native.index, p⟩ := by
  unfold prototypeOf prototype MethodModel.decl
  rcases Signature.ofDescriptor native.method.descriptor native.method.isStatic with e | signature
  · rfl
  · rfl

theorem prototypeOf_eq_ok_iff {className : String} {overloaded : Bool} {native : NativeMethod}
    {placed : Placed} :
    prototypeOf className overloaded native = .ok placed ↔
      placed.index = native.index
        ∧ prototype className overloaded native.method.decl = .ok placed.prototype := by
  rw [prototypeOf_eq]
  rcases prototype className overloaded native.method.decl with e | p
  · exact ⟨fun h => (nomatch h), fun h => (nomatch h.2)⟩
  · constructor
    · intro h
      rw [← Except.ok.inj h]
      exact ⟨rfl, rfl⟩
    · rintro ⟨hindex, hp⟩
      rw [Except.ok.inj hp, ← hindex]

/-- What is wrong with the descriptor of a native method, whether it is overloaded or not. -/
def flaw? (className : String) (d : NativeDecl) : Option GenerationError :=
  failure? (prototype className false d)

theorem failure?_prototypeOf (className : String) (overloaded : Bool) (native : NativeMethod) :
    failure? (prototypeOf className overloaded native) = flaw? className native.method.decl := by
  rw [prototypeOf_eq, flaw?]
  unfold prototype
  rcases Signature.ofDescriptor native.method.decl.descriptor native.method.decl.isStatic
    with e | signature
  · rfl
  · rfl

/-! ## Groups -/

/-- The native methods of a class group by group. -/
def grouped (c : ClassModel) : List NativeMethod := c.overloadGroups.flatMap OverloadGroup.members

/-- Native methods with those of one name put together, in the order of first sight. -/
def groupedDecls (decls : List NativeDecl) : List NativeDecl :=
  (decls.map NativeDecl.name).eraseDups.flatMap fun name => decls.filter fun d => d.name == name

theorem map_decl_natives (c : ClassModel) :
    c.natives.map (fun native => native.method.decl) = c.nativeDecls := by
  rw [ClassModel.nativeDecls, ← ClassModel.map_method_natives, List.map_map]
  rfl

theorem map_decl_filter (c : ClassModel) (name : String) :
    (c.natives.filter fun native => native.method.name == name).map
        (fun native => native.method.decl)
      = c.nativeDecls.filter fun d => d.name == name := by
  rw [← map_decl_natives, List.filter_map]
  rfl

theorem isOverloaded_ofName (c : ClassModel) (name : String) :
    (OverloadGroup.ofName c.natives name).isOverloaded
      = NativeDecl.isShared c.nativeDecls name := by
  rw [NativeDecl.isShared, ← map_decl_filter, List.length_map]
  rfl

/-- What the groups show does not depend on the places of the native methods. -/
theorem map_decl_grouped (c : ClassModel) :
    (grouped c).map (fun native => native.method.decl) = groupedDecls c.nativeDecls := by
  have hnames : OverloadGroup.namesOf c.natives
      = (c.nativeDecls.map NativeDecl.name).eraseDups := by
    rw [← map_decl_natives, List.map_map]
    rfl
  rw [grouped, ClassModel.overloadGroups_eq, hnames, List.flatMap_map, List.map_flatMap,
    groupedDecls]
  congr 1
  funext name
  exact map_decl_filter c name

/-- In a group the members are overloaded when they share their name. -/
theorem byGroup_overloadGroups (c : ClassModel) :
    byGroup c.overloadGroups
      = (grouped c).map fun native =>
          (NativeDecl.isShared c.nativeDecls native.method.name, native) := by
  rw [grouped, byGroup, List.map_flatMap, ClassModel.overloadGroups_eq, List.flatMap_map,
    List.flatMap_map]
  congr 1
  funext name
  apply List.map_congr_left
  intro native hnative
  have hname : native.method.name = name := by
    simpa [OverloadGroup.ofName] using (List.mem_filter.1 hnative).2
  rw [isOverloaded_ofName, hname]

/-- The prototypes group by group, before they are put back into order. -/
theorem prototypesOf_eq (c : ClassModel) :
    prototypesOf c =
      match (grouped c).mapM fun native =>
          prototypeOf c.name (NativeDecl.isShared c.nativeDecls native.method.name) native with
      | .error e => .error e
      | .ok placed =>
        .ok ((placed.mergeSort fun a b => decide (a.index ≤ b.index)).map Placed.prototype) := by
  rw [prototypesOf, byGroup_overloadGroups, List.mapM_map]
  split
  · rename_i e he
    exact congrArg (fun placed => placed >>= _) he
  · rename_i placed hplaced
    exact congrArg (fun placed => placed >>= _) hplaced

/-! ## Putting prototypes back into order -/

/-- A list that is sorted by place already is what sorting makes of any of its rearrangements. -/
theorem mergeSort_eq_of_perm {placed sorted : List Placed} (hperm : sorted.Perm placed)
    (hsorted : sorted.Pairwise fun a b => a.index < b.index) :
    (placed.mergeSort fun a b => decide (a.index ≤ b.index)) = sorted := by
  have hpairwise : (placed.mergeSort fun a b => decide (a.index ≤ b.index)).Pairwise
      fun a b => a.index ≤ b.index := by
    refine List.Pairwise.imp of_decide_eq_true (List.pairwise_mergeSort ?_ ?_ placed)
    · intro a b c hab hbc
      rw [decide_eq_true_eq] at hab hbc ⊢
      omega
    · intro a b
      rw [Bool.or_eq_true, decide_eq_true_eq, decide_eq_true_eq]
      omega
  have hrearranged := (List.mergeSort_perm placed fun a b => decide (a.index ≤ b.index)).trans
    hperm.symm
  refine List.Perm.eq_of_pairwise ?_ hpairwise (hsorted.imp Nat.le_of_lt) hrearranged
  -- places are unique, so neither order can hold both ways between two prototypes
  intro a b ha hb hab hba
  have hinj := List.inj_on_of_nodup_map
    (f := Placed.index) (List.pairwise_map.2 (hsorted.imp Nat.ne_of_lt))
  exact hinj (hrearranged.mem_iff.1 ha) hb (Nat.le_antisymm hab hba)

/-- Each prototype keeps the place of its method, so sorting restores the order of declaration. -/
theorem inOnePass_of_prototypesOf {c : ClassModel} {prototypes : List Prototype}
    (h : prototypesOf c = .ok prototypes) :
    inOnePass c.name c.nativeDecls = .ok prototypes := by
  rw [prototypesOf_eq] at h
  split at h
  · contradiction
  · rename_i placed hplaced
    rw [mapM_eq_ok_iff] at hplaced
    obtain ⟨sorted, hrel, hperm⟩ := List.perm_comp_forall₂ c.members_perm.symm hplaced
    have hindices : sorted.map Placed.index = c.natives.map NativeMethod.index := by
      rw [← List.forall₂_eq_eq_eq, List.forall₂_map_left_iff, List.forall₂_map_right_iff]
      refine List.Forall₂.imp ?_ hrel.flip
      intro placed native hplaced
      exact (prototypeOf_eq_ok_iff.1 hplaced).1
    have hsorted : sorted.Pairwise fun a b => a.index < b.index := by
      rw [← List.pairwise_map (f := Placed.index) (R := fun i j => i < j), hindices,
        List.pairwise_map]
      exact c.pairwise_natives
    rw [mergeSort_eq_of_perm hperm hsorted] at h
    rw [inOnePass, mapM_eq_ok_iff, ← Except.ok.inj h, ← map_decl_natives,
      List.forall₂_map_left_iff, List.forall₂_map_right_iff, map_decl_natives]
    refine List.Forall₂.imp ?_ hrel
    intro native placed hplaced
    exact (prototypeOf_eq_ok_iff.1 hplaced).2

/-- **The first flaw in group order is the one that is reported.** -/
theorem prototypesOf_eq_error_iff {c : ClassModel} {e : GenerationError} :
    prototypesOf c = .error e ↔
      (groupedDecls c.nativeDecls).findSome? (flaw? c.name) = some e := by
  have hflaws : (fun native : NativeMethod => failure? (prototypeOf c.name
        (NativeDecl.isShared c.nativeDecls native.method.name) native))
      = fun native => flaw? c.name native.method.decl := by
    funext native
    rw [failure?_prototypeOf]
  rw [prototypesOf_eq, ← map_decl_grouped, List.findSome?_map, Function.comp_def, ← hflaws,
    ← mapM_eq_error_iff]
  split
  · rename_i e' he
    rw [he, Except.error.injEq, Except.error.injEq]
  · rename_i placed hplaced
    rw [hplaced]
    exact ⟨fun h => (nomatch h), fun h => (nomatch h)⟩

theorem mem_of_mem_groupedDecls {decls : List NativeDecl} {d : NativeDecl}
    (h : d ∈ groupedDecls decls) : d ∈ decls := by
  obtain ⟨name, -, hd⟩ := List.mem_flatMap.1 h
  exact (List.mem_filter.1 hd).1

/-- **Regrouping and sorting cannot be seen.** The prototypes of a class are those that one pass
over its native methods gives. -/
theorem prototypesOf_eq_ok_iff {c : ClassModel} {prototypes : List Prototype} :
    prototypesOf c = .ok prototypes ↔ inOnePass c.name c.nativeDecls = .ok prototypes := by
  refine ⟨inOnePass_of_prototypesOf, ?_⟩
  intro hpass
  rcases h : prototypesOf c with e | prototypes'
  · -- a flaw in group order is a flaw of some native method, which one pass comes to as well
    obtain ⟨d, hd, hflaw⟩ := List.exists_of_findSome?_eq_some (prototypesOf_eq_error_iff.1 h)
    obtain ⟨i, hi⟩ := List.mem_iff_getElem?.1 (mem_of_mem_groupedDecls hd)
    obtain ⟨p, -, hp⟩ := getElem?_of_mapM_eq_ok hpass hi
    obtain ⟨-, -, -, hsignature⟩ := prototype_eq_ok_iff.1 hp
    rw [flaw?, prototype, hsignature] at hflaw
    contradiction
  · rw [← hpass, ← inOnePass_of_prototypesOf h]

/-- Native methods whose descriptors can be read have prototypes. -/
theorem exists_prototypesOf_of_readable {c : ClassModel}
    (h : ∀ d ∈ c.nativeDecls, ∃ m, MethodDescriptor.parse d.descriptor = .ok m) :
    ∃ prototypes, prototypesOf c = .ok prototypes := by
  rcases hp : prototypesOf c with e | prototypes
  · rw [prototypesOf_eq_error_iff] at hp
    obtain ⟨d, hd, hflaw⟩ := List.exists_of_findSome?_eq_some hp
    obtain ⟨m, hm⟩ := h d (mem_of_mem_groupedDecls hd)
    rw [flaw?, prototype, Signature.ofDescriptor, hm] at hflaw
    contradiction
  · exact ⟨prototypes, rfl⟩

/-- The prototypes of a class, errors included, depend on its name and on what a header shows of
its native methods. -/
theorem prototypesOf_congr {c c' : ClassModel} (hname : c.name = c'.name)
    (hdecls : c.nativeDecls = c'.nativeDecls) : prototypesOf c = prototypesOf c' := by
  rcases h : prototypesOf c with e | prototypes
  · rw [prototypesOf_eq_error_iff, hname, hdecls, ← prototypesOf_eq_error_iff] at h
    exact h.symm
  · rcases h' : prototypesOf c' with e | prototypes'
    · rw [prototypesOf_eq_error_iff, ← hname, ← hdecls, ← prototypesOf_eq_error_iff, h] at h'
      contradiction
    · have hpass := inOnePass_of_prototypesOf h
      rw [hname, hdecls, inOnePass_of_prototypesOf h'] at hpass
      exact hpass.symm

/-! ## Headers -/

theorem isSome_suffix_link (className method descriptor : String) (overloaded : Bool) :
    (Symbol.link className method descriptor overloaded).suffix.isSome = overloaded := by
  rcases overloaded with _ | _
  · rfl
  · rfl

theorem hasNatives_eq (c : ClassModel) : c.hasNatives = !c.nativeDecls.isEmpty := by
  rw [ClassModel.hasNatives, ClassModel.nativeDecls, List.isEmpty_map]
  rcases h : c.methods.any (·.isNative) with _ | _
  · rw [List.any_eq_false] at h
    rw [List.filter_eq_nil_iff.2 h]
    rfl
  · obtain ⟨m, hm, hnative⟩ := List.any_eq_true.1 h
    have hne := List.ne_nil_of_mem (List.mem_filter.2 ⟨hm, hnative⟩)
    rw [List.isEmpty_eq_false_iff.2 hne]
    rfl

/-- What a header is made of. -/
theorem exists_of_ofClass {settings : Settings} {c : ClassModel} {header : Header}
    (h : ofClass settings c = .ok (some header)) :
    ∃ prototypes, prototypesOf c = .ok prototypes
      ∧ header = { empty c.name (Symbol.escapeName c.name) with
        constants := if settings.emitConstants then
          c.constants.map (definitionOf (Symbol.escapeName c.name)) else []
        prototypes } := by
  rw [ofClass] at h
  split at h
  · cases h
  · rcases hprototypes : prototypesOf c with e | prototypes
    · rw [hprototypes] at h
      contradiction
    · rw [hprototypes] at h
      dsimp only [bind, Except.bind] at h
      split at h
      · contradiction
      · exact ⟨prototypes, rfl, (Option.some.inj (Except.ok.inj h)).symm⟩

/-- The header of a file is that of the class in it. -/
theorem exists_of_ofClassFile {settings : Settings} {file : ClassFile} {header : Header}
    (h : ofClassFile settings file = .ok (some header)) :
    ∃ c, file.model = .ok c ∧ ofClass settings c = .ok (some header) := by
  rw [ofClassFile] at h
  rcases hmodel : file.model with e | c
  · rw [hmodel] at h
    contradiction
  · rw [hmodel] at h
    exact ⟨c, rfl, h⟩

/-- A header has the prototypes of its class. -/
theorem prototypesOf_of_ofClass {settings : Settings} {c : ClassModel} {header : Header}
    (h : ofClass settings c = .ok (some header)) : prototypesOf c = .ok header.prototypes := by
  obtain ⟨prototypes, hprototypes, rfl⟩ := exists_of_ofClass h
  exact hprototypes

/-- **A header is made in one pass over the native methods.** Its prototypes are theirs, position
by position, and the symbol of one has the parameters exactly when another position has the name.
Nothing else of the methods of a class decides the header or the error. -/
theorem ofClass_in_one_pass :
    (∀ (settings : Settings) (c : ClassModel) (header : Header),
      ofClass settings c = .ok (some header) →
        header.prototypes.length = c.nativeDecls.length
          ∧ ∀ (i : Nat) (d : NativeDecl), c.nativeDecls[i]? = some d →
            ∃ p, header.prototypes[i]? = some p
              ∧ p.method = d.name
              ∧ p.descriptor = d.descriptor
              ∧ Signature.ofDescriptor d.descriptor d.isStatic = .ok p.signature
              ∧ p.symbol = Symbol.link c.name d.name d.descriptor p.symbol.suffix.isSome
              ∧ (p.symbol.suffix.isSome = true ↔
                  ∃ j d', j ≠ i ∧ c.nativeDecls[j]? = some d' ∧ d'.name = d.name))
      ∧ ∀ (settings : Settings) (c c' : ClassModel), c.name = c'.name →
        c.constants = c'.constants → c.nativeDecls = c'.nativeDecls →
          ofClass settings c = ofClass settings c' := by
  refine ⟨?_, ?_⟩
  · intro settings c header h
    have hpass := prototypesOf_eq_ok_iff.1 (prototypesOf_of_ofClass h)
    refine ⟨(mapM_eq_ok_iff.1 hpass).length_eq.symm, ?_⟩
    intro i d hd
    obtain ⟨p, hget, hp⟩ := getElem?_of_mapM_eq_ok hpass hd
    obtain ⟨hmethod, hdescriptor, hsymbol, hsignature⟩ := prototype_eq_ok_iff.1 hp
    refine ⟨p, hget, hmethod, hdescriptor, hsignature, ?_, ?_⟩
    · rw [hsymbol, isSome_suffix_link]
    · rw [hsymbol, isSome_suffix_link]
      exact NativeDecl.isShared_iff hd
  · intro settings c c' hname hconstants hdecls
    rw [ofClass, ofClass, hasNatives_eq, hasNatives_eq, prototypesOf_congr hname hdecls, hname,
      hconstants, hdecls]

/-- A class with two native methods of one name, between which a method that is not native has
that name too. -/
def namesakes : ClassModel where
  name := "p/Q"
  enclosing := []
  methods := [
    ⟨"f", "(I)V", true, false, true, false⟩,
    ⟨"f", "()V", false, false, true, false⟩,
    ⟨"f", "(J)V", true, true, true, false⟩]
  constants := []

theorem signature_of_print {descriptor : String} {d : MethodDescriptor}
    (hprint : descriptor = String.ofList d.print) (hlegal : d.Legal) (isStatic : Bool) :
    Signature.ofDescriptor descriptor isStatic = .ok (Signature.ofMethod d isStatic) := by
  rw [Signature.ofDescriptor, MethodDescriptor.parse_eq_ok_iff.2 ⟨hprint, hlegal⟩]

theorem prototypesOf_namesakes :
    prototypesOf namesakes = .ok [
      ⟨"f", "(I)V", Symbol.link "p/Q" "f" "(I)V" true, ⟨.object, [.scalar .int], .void⟩⟩,
      ⟨"f", "(J)V", Symbol.link "p/Q" "f" "(J)V" true,
        ⟨.classObject, [.scalar .long], .void⟩⟩] := by
  have hint : Signature.ofDescriptor "(I)V" false = .ok ⟨.object, [.scalar .int], .void⟩ :=
    signature_of_print (d := ⟨[.primitive .int], .void⟩) (by decide) (by decide) false
  have hlong : Signature.ofDescriptor "(J)V" true = .ok ⟨.classObject, [.scalar .long], .void⟩ :=
    signature_of_print (d := ⟨[.primitive .long], .void⟩) (by decide) (by decide) true
  rw [prototypesOf_eq_ok_iff, inOnePass, mapM_eq_ok_iff]
  refine .cons ?_ (.cons ?_ .nil)
  · exact prototype_eq_ok_iff.2 ⟨rfl, rfl, rfl, hint⟩
  · exact prototype_eq_ok_iff.2 ⟨rfl, rfl, rfl, hlong⟩

/-- Both prototypes of namesakes have their parameters in their symbols, and the method between
them and what can be seen of the methods play no part. -/
theorem ofClass_in_one_pass_of_namesakes :
    (∃ header, ofClass {} namesakes = .ok (some header)
      ∧ header.prototypes.length = 2
      ∧ ∃ p, header.prototypes[1]? = some p ∧ p.descriptor = "(J)V"
        ∧ p.symbol = Symbol.link "p/Q" "f" "(J)V" true)
    ∧ ofClass {} namesakes = ofClass {} { namesakes with
        enclosing := ["p/O"]
        methods := [
          ⟨"f", "(I)V", true, false, false, false⟩,
          ⟨"f", "(J)V", true, true, false, true⟩,
          ⟨"g", "()V", false, false, false, false⟩] } := by
  have hheader : ∃ header, ofClass {} namesakes = .ok (some header) := by
    rw [ofClass, prototypesOf_namesakes]
    exact ⟨_, rfl⟩
  obtain ⟨header, h⟩ := hheader
  obtain ⟨hlength, hprototypes⟩ := ofClass_in_one_pass.1 {} namesakes header h
  obtain ⟨p, hp, -, hdescriptor, -, hsymbol, hshared⟩ := hprototypes 1 ⟨"f", "(J)V", true⟩ rfl
  rw [hshared.2 ⟨0, ⟨"f", "(I)V", false⟩, by decide, rfl, rfl⟩] at hsymbol
  exact ⟨⟨header, h, hlength, p, hp, hdescriptor, hsymbol⟩,
    ofClass_in_one_pass.2 {} namesakes _ rfl rfl rfl⟩

end Header

end NativeHeaders
