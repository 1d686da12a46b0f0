import TypeCatalog.Member
import TypeCatalog.Proofs.Signature.Rewriting

/-! # Signatures of methods on class types

    On a class type with arguments a method has its signature with the arguments in place of the
    variables of the class. The signature is searched as a text, without reading its parts. If the
    search stays aligned with them, it is the signature with exactly these variables replaced in
    each of its parts. -/

set_option autoImplicit false

namespace TypeCatalog

open Signature

section lookup

variable {m : Callable} {owner : ClassType}

/-- What is put in place of a variable stands for an argument of the owner. -/
theorem Callable.exists_argument_of_lookup {name text : String}
    (h : m.ownerArgument? owner name = some text) :
    ∃ t ∈ owner.arguments, text = Callable.argumentSignature t := by
  unfold Callable.ownerArgument? at h
  split at h
  · cases h
  · obtain ⟨⟨v, t⟩, hfind, rfl⟩ := Option.map_eq_some_iff.1 h
    exact ⟨t, (List.of_mem_zip (List.mem_of_find?_eq_some hfind)).2, rfl⟩

/-- On an owner with arguments that are types, the signature of a method is one again: that of the
    method with the variables of the owner replaced by the arguments in each bound, parameter,
    result and exception, except for those that the method declares again, and nothing else changed.
    This is so if the search over the text stays aligned with its parts: the names of variables are
    words, a declared name with an `L` in it has a first bound that ends in the open, the names of
    classes stand on one line, and those that stand after type arguments neither end in a first `L`
    nor in `T` and the name of a variable that is replaced. -/
theorem Callable.signatureIn_rewritten (hread : MethodSignature.parse m.signature = .ok m.parts)
    (hspecialised : owner.isSpecialised = true)
    (harguments : ∀ t ∈ owner.arguments,
      ∃ u, TypeSignature.parse (Callable.argumentSignature t) = .ok u)
    (hsearch : m.parts.Searchable (m.ownerArgument? owner)) :
    ∃ parts, MethodSignature.parse (m.signatureIn owner) = .ok parts ∧
      m.parts.Rewritten id (m.ownerArgument? owner) parts := by
  obtain ⟨hparts, htext⟩ := MethodSignature.parse_eq_ok_iff.1 hread
  obtain ⟨parts, hrewritten, hsubstitute⟩ := MethodSignature.exists_rewritten hparts hsearch
  have hlookup : ∀ name text, m.ownerArgument? owner name = some text → IsTypeText text := by
    intro name text h
    obtain ⟨t, ht, rfl⟩ := Callable.exists_argument_of_lookup h
    exact harguments t ht
  have hsignature : m.signatureIn owner = parts.text := by
    rw [Callable.signatureIn, hspecialised, Bool.not_true, Bool.and_false, ← htext]
    exact hsubstitute
  refine ⟨parts, ?_, hrewritten⟩
  rw [hsignature, MethodSignature.parse_eq_ok_iff]
  exact ⟨hrewritten.wellFormed hlookup hparts fun v hv => (hparts.typeVariables v hv).name, rfl⟩

end lookup

/-- An entry of a table whose keys are strings. -/
theorem Callable.signatureIn_rewritten_entry :
    let m : Callable := ⟨⟨1025⟩, "", "(LTable<TK;>.Entry;)[TK;",
      ⟨[], ["LTable<TK;>.Entry;"], "[TK;", []⟩, [], false⟩
    let table : ClassDeclaration := { (default : ClassDeclaration) with
      name := ⟨"Table"⟩
      typeVariables := [⟨"K", [⟨.classBound, objectSignature⟩]⟩] }
    let owner : ClassType := ⟨table, [.unknownClass ⟨"java/lang/String"⟩]⟩
    m.signatureIn owner = "(LTable<Ljava/lang/String;>.Entry;)[Ljava/lang/String;" ∧
      ∃ parts, MethodSignature.parse (m.signatureIn owner) = .ok parts ∧
        m.parts.Rewritten id (m.ownerArgument? owner) parts := by
  intro m table owner
  have hkey : ∀ ch ∈ "K".toList, Text.isWord ch = true := List.all_eq_true.1 (by decide +kernel)
  have hclear : ClearSegment (m.ownerArgument? owner) "Entry" := by
    constructor
    · intro before hbefore
      have hlast := congrArg List.getLast? hbefore
      simp at hlast
    · intro after hafter
      exact absurd (hafter.subset List.mem_cons_self) (by decide)
  refine ⟨by decide +kernel, Callable.signatureIn_rewritten (by cbv) rfl ?_ ?_⟩
  · intro t ht
    obtain rfl := List.mem_singleton.1 ht
    exact ⟨.classType "java/lang/String" [], by cbv⟩
  · refine ⟨by simp [m], ?_, ?_, by simp [m]⟩
    · intro t ht
      obtain rfl := List.mem_singleton.1 ht
      refine ⟨.classType (.outer "Table" [.exactly (.typeVariable "K")] (.last "Entry" [])),
        ?_, by cbv, ?_⟩
      · exact ⟨by decide, ⟨(by decide : IsVariableName "K"), trivial⟩, by decide, trivial⟩
      · exact ⟨by decide, False.elim, ⟨hkey, trivial⟩, by decide, fun _ => hclear, trivial⟩
    · exact ⟨.array (.typeVariable "K"), (by decide : IsVariableName "K"), by cbv, hkey⟩

/-- A variable that is declared under the name `L`, with a variable of the owner as its bound: the
    search takes the name for the start of a class and passes over the bound, which stays. -/
theorem Callable.signatureIn_keeps_bound :
    let m : Callable := ⟨⟨1025⟩, "", "<L:TX;>(TL;)V",
      ⟨[⟨"L", [⟨.classBound, "TX;"⟩]⟩], ["TL;"], "V", []⟩, [], false⟩
    let pick : ClassDeclaration := { (default : ClassDeclaration) with
      name := ⟨"Pick"⟩
      typeVariables := [⟨"X", [⟨.classBound, objectSignature⟩]⟩] }
    let owner : ClassType := ⟨pick, [.unknownClass ⟨"java/lang/String"⟩]⟩
    MethodSignature.parse m.signature = .ok m.parts ∧ owner.isSpecialised = true ∧
      (∀ t ∈ owner.arguments, ∃ u, TypeSignature.parse (Callable.argumentSignature t) = .ok u) ∧
      m.signatureIn owner = "<L:TX;>(TL;)V" ∧
      ¬∃ parts, MethodSignature.parse (m.signatureIn owner) = .ok parts ∧
        m.parts.Rewritten id (m.ownerArgument? owner) parts := by
  intro m pick owner
  have hread : MethodSignature.parse m.signature = .ok m.parts := by cbv
  have hsignature : m.signatureIn owner = m.signature := by decide +kernel
  refine ⟨hread, rfl, ?_, hsignature, ?_⟩
  · intro t ht
    obtain rfl := List.mem_singleton.1 ht
    exact ⟨.classType "java/lang/String" [], by cbv⟩
  · rintro ⟨parts, hparts, hrewritten⟩
    rw [hsignature, hread] at hparts
    obtain rfl := Except.ok.inj hparts
    -- The bound would have to be replaced.
    obtain ⟨x, hx, htext, hreplaced⟩ :=
      ((List.forall₂_cons.1 hrewritten.typeVariables).1.bounds |> List.forall₂_cons.1).1.signature
    have hbound : x = .typeVariable "X" := hx.eq_of_text_eq (by decide : IsVariableName "X") (by
      rw [htext]
      cbv)
    rw [hbound] at hreplaced
    exact absurd hreplaced (by cbv)

end TypeCatalog
