import TypeCatalog.Proofs.Catalog.Signature

/-! # Legible types

    A type that is resolved where no variable has an argument writes all its names so that they can
    be read back, and its classes are those of the catalog. Types that are resolved inside such a
    type are of this form too. They need not have a signature that can be parsed: an argument that
    is a wildcard can come to stand below an array or below another wildcard. But their texts are
    texts of a wider grammar, in which the marks of arrays and wildcards stand before anything.
    No text of that grammar is the beginning of another one, so the signature of a class type tells
    its class and the signatures of its arguments. -/

set_option autoImplicit false

namespace TypeCatalog

/-! ## Section 1: Legible types -/

mutual
/-- The names in a type can be read back in its signature, its arrays have dimensions, and its
    classes are those that the catalog has under their names. -/
def ResolvedType.Legible (c : Catalog) : ResolvedType → Prop
  | .primitive _ => True
  | .array base dims => 1 ≤ dims ∧ base.Legible c
  | .classType d arguments =>
    Signature.IsClassName d.name.short ∧ c.get? d.name.short = some (.raw d) ∧
      ResolvedType.AllLegible c arguments
  | .typeVariable v => Signature.IsVariableName v.name
  | .anyWildcard => True
  | .wildcard _ bound => bound.Legible c
  | .unknownClass n => Signature.IsClassName n.short ∧ c.get? n.short = none
  | .nullType => False
/-- Several types are legible. -/
def ResolvedType.AllLegible (c : Catalog) : List ResolvedType → Prop
  | [] => True
  | t :: rest => t.Legible c ∧ ResolvedType.AllLegible c rest
end

variable {c : Catalog}

theorem ResolvedType.allLegible_iff {types : List ResolvedType} :
    ResolvedType.AllLegible c types ↔ ∀ r ∈ types, r.Legible c := by
  induction types with
  | nil => simp [ResolvedType.AllLegible]
  | cons t rest ih => rw [ResolvedType.AllLegible, ih, List.forall_mem_cons]

theorem ResolvedType.Legible.arrayOf {r : ResolvedType} (h : r.Legible c) :
    (r.arrayOf 1).Legible c := by
  rcases arrayOf_cases r 1 with ⟨base, dims, rfl, heq⟩ | ⟨-, heq⟩
  · obtain ⟨-, hbase⟩ := h
    rw [heq]
    exact ⟨Nat.le_add_left 1 dims, hbase⟩
  · rw [heq]
    exact ⟨Nat.le_refl 1, h⟩

/-! ## Section 2: What resolution keeps -/

/-- A property of types and one of arguments such that what is built of types that have the one, or
    of arguments that have the other, has it too. -/
structure Catalog.Closed (c : Catalog) (P Q : ResolvedType → Prop) : Prop where
  primitive (p : Primitive) : P (.primitive p)
  typeVariable {v : TypeVariable} : Signature.IsVariableName v.name → P (.typeVariable v)
  arrayOf {r : ResolvedType} : P r → P (r.arrayOf 1)
  unknownClass {name : String} :
    Signature.IsClassName name → c.get? name = none → P (.unknownClass ⟨name⟩)
  classType {d : ClassDeclaration} {types : List ResolvedType} :
    Signature.IsClassName d.name.short → c.get? d.name.short = some (.raw d) →
      (∀ r ∈ types, Q r) → P (.classType d types)
  anyWildcard : Q .anyWildcard
  wildcard {kind : WildcardKind} {bound : ResolvedType} : P bound → Q (.wildcard kind bound)
  argument {r : ResolvedType} : P r → Q r

/-- What variables mean in a scope has a property. -/
def Scope.Means (s : Scope) (c : Catalog) (P : ResolvedType → Prop) : Prop :=
  ∀ name, Signature.IsVariableName name → P (c.resolveVariable s name)

section closed

variable {P Q : ResolvedType → Prop} {s : Scope}

/-- A name of a class finds the class declared under it, which has no arguments. -/
theorem Catalog.Closed.get? (h : c.Closed P Q) (hc : c.Keyed) {name : String} {t : ClassType}
    (hname : Signature.IsClassName name) (hget : c.get? name = some t) : P t.toType := by
  obtain ⟨d, hd, rfl⟩ := hc.exists_raw hname hget
  rw [← hd] at hname hget
  exact h.classType hname hget (List.forall_mem_nil _)

theorem Catalog.Closed.objectType (h : c.Closed P Q) (hc : c.Keyed) : P c.objectType := by
  have hname : Signature.IsClassName objectName := by
    simp [Signature.IsName, objectName]
  unfold Catalog.objectType
  cases hget : c.get? objectName with
  | none => exact h.unknownClass hname hget
  | some t => exact h.get? hc hname hget

/-- A class that is specialised has the given arguments and the root class for those missing. -/
theorem Catalog.Closed.specialise (h : c.Closed P Q) (hc : c.Keyed) {name : String} {t : ClassType}
    {types : List ResolvedType} (hname : Signature.IsClassName name) (hget : c.get? name = some t)
    (htypes : ∀ r ∈ types, Q r) : P (c.specialise t types).toType := by
  obtain ⟨d, hd, rfl⟩ := hc.exists_raw hname hget
  rw [← hd] at hname hget
  apply h.classType hname hget
  intro r hr
  rcases mem_fillArguments hr with rfl | hr
  · exact h.argument (h.objectType hc)
  · exact htypes r hr

mutual
/-- The induction is on the signature; what its variables mean has the property. -/
theorem Catalog.Closed.resolveSignature (h : c.Closed P Q) (hc : c.Keyed) (hs : s.Means c P)
    (t : TypeSignature) (ht : t.WellFormed) : P (c.resolveSignature s t) := by
  cases t with
  | primitive p => exact h.primitive p
  | typeVariable name => exact hs name ht
  | array element => exact h.arrayOf (h.resolveSignature hc hs element ht)
  | classType name arguments =>
    obtain ⟨hname, hargs⟩ := ht
    rw [Catalog.resolveSignature]
    cases hget : c.get? name with
    | none => exact h.unknownClass hname hget
    | some known =>
      by_cases hempty : arguments.isEmpty
      · simp only [if_pos hempty]
        exact h.get? hc hname hget
      · simp only [if_neg hempty]
        exact h.specialise hc hname hget (h.resolveArguments hc hs arguments hargs)
theorem Catalog.Closed.resolveArgument (h : c.Closed P Q) (hc : c.Keyed) (hs : s.Means c P)
    (a : TypeArgument) (ha : a.WellFormed) : Q (c.resolveArgument s a) := by
  cases a with
  | any => exact h.anyWildcard
  | upper bound => exact h.wildcard (h.resolveSignature hc hs bound ha)
  | lower bound => exact h.wildcard (h.resolveSignature hc hs bound ha)
  | exactly t => exact h.argument (h.resolveSignature hc hs t ha)
theorem Catalog.Closed.resolveArguments (h : c.Closed P Q) (hc : c.Keyed) (hs : s.Means c P)
    (as : List TypeArgument) (has : TypeArgument.AllWellFormed as) :
    ∀ r ∈ c.resolveArguments s as, Q r := by
  cases as with
  | nil => exact List.forall_mem_nil _
  | cons a rest =>
    rw [Catalog.resolveArguments, List.forall_mem_cons]
    exact ⟨h.resolveArgument hc hs a has.1, h.resolveArguments hc hs rest has.2⟩
end

/-- A text that names a class type gives one with the property; a text that is no signature gives
    none. -/
theorem Catalog.Closed.resolve (h : c.Closed P Q) (hc : c.Keyed) (hs : s.Means c P)
    {text : String} {t : ClassType} (htext : c.resolve s text = t.toType) : P t.toType := by
  unfold Catalog.resolve at htext
  cases hread : readSignature? text with
  | none =>
    rw [hread] at htext
    cases htext
  | some signature =>
    rw [hread] at htext
    rw [← htext]
    exact h.resolveSignature hc hs signature (wellFormed_of_readSignature? hread)

/-- Variables mean types with the property if those that the scope binds do: any other one means
    itself or the root class. -/
theorem Catalog.Closed.means (h : c.Closed P Q) (hc : c.Keyed)
    (hargs : ∀ r ∈ s.classArguments, P r) : s.Means c P := by
  intro name hname
  have hdeclared : ∀ {vs : List TypeVariable} {v : TypeVariable},
      Scope.findVariable? vs name = some v → P (.typeVariable v) := by
    intro vs v hfind
    have hbeq : (v.name == name) = true :=
      List.find?_some (p := fun w : TypeVariable => w.name == name) hfind
    apply h.typeVariable
    rw [eq_of_beq hbeq]
    exact hname
  unfold Catalog.resolveVariable Scope.lookup?
  cases hmethod : Scope.findVariable? s.methodVariables name with
  | some v => exact hdeclared hmethod
  | none =>
    by_cases hempty : s.classArguments.isEmpty
    · simp only [if_pos hempty]
      cases hclass : Scope.findVariable? s.classVariables name with
      | some v => exact hdeclared hclass
      | none => exact h.objectType hc
    · simp only [if_neg hempty]
      cases hbound : (s.classVariables.zip s.classArguments).find? fun q => q.1.name == name with
      | some p =>
        have hmem := List.mem_of_find?_eq_some hbound
        exact hargs p.2 (List.of_mem_zip hmem).2
      | none => exact h.objectType hc

end closed

/-- What is built of legible types is legible. -/
theorem Catalog.closed_legible (c : Catalog) :
    c.Closed (ResolvedType.Legible c) (ResolvedType.Legible c) where
  primitive _ := trivial
  typeVariable hname := hname
  arrayOf h := h.arrayOf
  unknownClass hname hget := ⟨hname, hget⟩
  classType hname hget htypes := ⟨hname, hget, ResolvedType.allLegible_iff.2 htypes⟩
  anyWildcard := trivial
  wildcard h := h
  argument h := h

/-- Inside a legible class type variables mean legible types, whatever a method declares. -/
theorem ClassType.means_legible {t : ClassType} (hc : c.Keyed) (ht : t.toType.Legible c)
    (methodVariables : List TypeVariable) :
    (t.scope.withMethod methodVariables).Means c (ResolvedType.Legible c) := by
  obtain ⟨-, -, hargs⟩ := ht
  exact c.closed_legible.means hc (ResolvedType.allLegible_iff.1 hargs)

/-! ## Section 3: Texts with marks anywhere -/

namespace Signature

/-- Texts one after the other between angle brackets; nothing if there are none. -/
def bracketedChars (parts : List (List Char)) : List Char :=
  if parts.isEmpty then [] else '<' :: parts.flatten ++ ['>']

/-- A text of a signature in which the marks of arrays and of wildcards may stand before any
    type. -/
inductive IsMarked : List Char → Prop
  | letter (p : Primitive) : IsMarked [p.letter]
  | any : IsMarked ['*']
  | mark {m : Char} {s : List Char} : m ∈ ['[', '+', '-'] → IsMarked s → IsMarked (m :: s)
  | typeVariable {name : String} : IsVariableName name → IsMarked ('T' :: name.toList ++ [';'])
  | classType {name : String} {parts : List (List Char)} :
      IsClassName name → (∀ s ∈ parts, IsMarked s) →
      IsMarked ('L' :: name.toList ++ bracketedChars parts ++ [';'])

/-- A text is told from every text that starts with another one of the grammar. -/
def IsSeparate (s : List Char) : Prop :=
  ∀ s' x x', IsMarked s' → s ++ x = s' ++ x' → s = s' ∧ x = x'

theorem IsMarked.ne_close {s : List Char} (h : IsMarked s) : ∃ ch r, s = ch :: r ∧ ch ≠ '>' := by
  cases h with
  | letter p => exact ⟨p.letter, [], rfl, by cases p <;> decide⟩
  | any => exact ⟨'*', [], rfl, by decide⟩
  | mark hm h => exact ⟨_, _, rfl, by rintro rfl; simp at hm⟩
  | typeVariable h => exact ⟨'T', _, rfl, by decide⟩
  | classType h hparts => exact ⟨'L', _, rfl, by decide⟩

/-- A name ends where the first delimiter stands. -/
theorem name_append_inj {ends : Char → Bool} {delimiters : List Char}
    (hends : EndsAt ends delimiters) {word word' : String} (hword : IsName delimiters word)
    (hword' : IsName delimiters word') {d d' : Char} (hd : d ∈ delimiters) (hd' : d' ∈ delimiters)
    {x x' : List Char} (h : word.toList ++ d :: x = word'.toList ++ d' :: x') :
    word = word' ∧ d :: x = d' :: x' := by
  have hread := outcome_name hends hword hd x
  rw [h, outcome_name hends hword' hd' x'] at hread
  have hpair := Except.ok.inj hread
  exact ⟨(congrArg Prod.fst hpair).symm, (congrArg Prod.snd hpair).symm⟩

theorem flatten_append_inj {parts parts' : List (List Char)} (h : ∀ s ∈ parts, IsSeparate s)
    (hparts : ∀ s ∈ parts, IsMarked s) (hparts' : ∀ s ∈ parts', IsMarked s) {x x' : List Char}
    (heq : parts.flatten ++ '>' :: x = parts'.flatten ++ '>' :: x') :
    parts = parts' ∧ x = x' := by
  induction parts generalizing parts' with
  | nil =>
    cases parts' with
    | nil => exact ⟨rfl, (List.cons.inj heq).2⟩
    | cons s' parts' =>
      -- One list is closed where the other goes on; no text starts with the bracket.
      obtain ⟨ch, r, hs', hch⟩ := (hparts' s' List.mem_cons_self).ne_close
      rw [List.flatten_cons, hs', List.append_assoc, List.cons_append] at heq
      exact absurd (List.cons.inj heq).1.symm hch
  | cons s parts ih =>
    cases parts' with
    | nil =>
      obtain ⟨ch, r, hs, hch⟩ := (hparts s List.mem_cons_self).ne_close
      rw [List.flatten_cons, hs, List.append_assoc, List.cons_append] at heq
      exact absurd (List.cons.inj heq).1 hch
    | cons s' parts' =>
      rw [List.flatten_cons, List.flatten_cons, List.append_assoc, List.append_assoc] at heq
      obtain ⟨rfl, hrest⟩ :=
        h s List.mem_cons_self s' _ _ (hparts' s' List.mem_cons_self) heq
      obtain ⟨rfl, hx⟩ := ih (fun t ht => h t (List.mem_cons_of_mem _ ht))
        (fun t ht => hparts t (List.mem_cons_of_mem _ ht))
        (fun t ht => hparts' t (List.mem_cons_of_mem _ ht)) hrest
      exact ⟨rfl, hx⟩

/-- What stands between the name of a class and its semicolon starts with a delimiter. -/
theorem bracketedChars_append_cons (parts : List (List Char)) (x : List Char) :
    ∃ d r, bracketedChars parts ++ ';' :: x = d :: r ∧ d ∈ ['<', ';', '.'] := by
  unfold bracketedChars
  split
  · exact ⟨';', x, rfl, by decide⟩
  · exact ⟨'<', _, rfl, by decide⟩

theorem bracketedChars_append_inj {parts parts' : List (List Char)} (h : ∀ s ∈ parts, IsSeparate s)
    (hparts : ∀ s ∈ parts, IsMarked s) (hparts' : ∀ s ∈ parts', IsMarked s) {x x' : List Char}
    (heq : bracketedChars parts ++ ';' :: x = bracketedChars parts' ++ ';' :: x') :
    parts = parts' ∧ x = x' := by
  unfold bracketedChars at heq
  cases parts with
  | nil =>
    cases parts' with
    | nil => exact ⟨rfl, (List.cons.inj heq).2⟩
    | cons s' parts' =>
      have hhead := (List.cons.inj heq).1
      exact absurd hhead (by decide)
  | cons s parts =>
    cases parts' with
    | nil =>
      have hhead := (List.cons.inj heq).1
      exact absurd hhead (by decide)
    | cons s' parts' =>
      simp only [List.isEmpty_cons, Bool.false_eq_true, if_false, List.cons_append,
        List.append_assoc, List.cons.injEq, true_and] at heq
      obtain ⟨hlist, hx⟩ := flatten_append_inj h hparts hparts' heq
      exact ⟨hlist, (List.cons.inj hx).2⟩

/-- The name and the arguments of a class type can be read off its text. -/
theorem classChars_append_inj {name name' : String} {parts parts' : List (List Char)}
    (hname : IsClassName name) (hname' : IsClassName name') (h : ∀ s ∈ parts, IsSeparate s)
    (hparts : ∀ s ∈ parts, IsMarked s) (hparts' : ∀ s ∈ parts', IsMarked s) {x x' : List Char}
    (heq : name.toList ++ (bracketedChars parts ++ ';' :: x) =
      name'.toList ++ (bracketedChars parts' ++ ';' :: x')) :
    name = name' ∧ parts = parts' ∧ x = x' := by
  obtain ⟨d, r, hr, hd⟩ := bracketedChars_append_cons parts x
  obtain ⟨d', r', hr', hd'⟩ := bracketedChars_append_cons parts' x'
  rw [hr, hr'] at heq
  obtain ⟨rfl, hrest⟩ := name_append_inj endsAt_segment hname hname' hd hd' heq
  rw [← hr, ← hr'] at hrest
  exact ⟨rfl, bracketedChars_append_inj h hparts hparts' hrest⟩

/-- No text of the grammar is the beginning of another one. The induction is on the first text; its
    first character says what the second one is. -/
theorem IsMarked.isSeparate {s : List Char} (h : IsMarked s) : IsSeparate s := by
  induction h with
  | letter p =>
    intro s' x x' h' heq
    cases h' with
    | letter p' =>
      obtain ⟨hp, hx⟩ := List.cons.inj heq
      exact ⟨congrArg (fun ch => [ch]) hp, hx⟩
    | mark hm h' =>
      have hp := (List.cons.inj heq).1
      rw [← hp] at hm
      exact absurd hm (by cases p <;> decide)
    | _ => exact absurd (List.cons.inj heq).1 (by cases p <;> decide)
  | any =>
    intro s' x x' h' heq
    cases h' with
    | any => exact ⟨rfl, (List.cons.inj heq).2⟩
    | letter p' => exact absurd (List.cons.inj heq).1 (by cases p' <;> decide)
    | mark hm h' =>
      have hp := (List.cons.inj heq).1
      rw [← hp] at hm
      exact absurd hm (by decide)
    | _ => exact absurd (List.cons.inj heq).1 (by decide)
  | mark hm h ih =>
    intro s' x x' h' heq
    cases h' with
    | mark hm' h' =>
      -- Below the same mark stand two shorter texts.
      obtain ⟨rfl, hrest⟩ := List.cons.inj heq
      obtain ⟨rfl, hx⟩ := ih _ _ _ h' hrest
      exact ⟨rfl, hx⟩
    | letter p' =>
      have hp := (List.cons.inj heq).1
      rw [hp] at hm
      exact absurd hm (by cases p' <;> decide)
    | _ =>
      have hp := (List.cons.inj heq).1
      rw [hp] at hm
      exact absurd hm (by decide)
  | typeVariable hname =>
    intro s' x x' h' heq
    cases h' with
    | typeVariable hname' =>
      simp only [List.cons_append, List.append_assoc, List.cons.injEq, true_and] at heq
      obtain ⟨rfl, hrest⟩ :=
        name_append_inj endsAt_variable hname hname' (by decide) (by decide) heq
      exact ⟨rfl, (List.cons.inj hrest).2⟩
    | letter p' => exact absurd (List.cons.inj heq).1 (by cases p' <;> decide)
    | mark hm h' =>
      have hp := (List.cons.inj heq).1
      rw [← hp] at hm
      exact absurd hm (by decide)
    | _ => exact absurd (List.cons.inj heq).1 (by decide)
  | classType hname hparts ih =>
    intro s' x x' h' heq
    cases h' with
    | classType hname' hparts' =>
      simp only [List.cons_append, List.append_assoc, List.cons.injEq, true_and] at heq
      -- The hypotheses of the induction are that the texts of the arguments are separate.
      obtain ⟨rfl, rfl, hx⟩ := classChars_append_inj hname hname' ih hparts hparts' heq
      exact ⟨rfl, hx⟩
    | letter p' => exact absurd (List.cons.inj heq).1 (by cases p' <;> decide)
    | mark hm h' =>
      have hp := (List.cons.inj heq).1
      rw [← hp] at hm
      exact absurd hm (by decide)
    | _ => exact absurd (List.cons.inj heq).1 (by decide)

end Signature

/-! ## Section 4: The texts of legible types -/

theorem ResolvedType.signatures_eq_map (types : List ResolvedType) :
    ResolvedType.signatures types = types.map ResolvedType.signature := by
  induction types with
  | nil => rfl
  | cons t rest ih => rw [ResolvedType.signatures, ih, List.map_cons]

/-- The texts of the arguments of a class type. -/
def ClassType.argumentChars (t : ClassType) : List (List Char) :=
  t.arguments.map fun r => r.signature.toList

theorem ClassType.toList_shortSignature (t : ClassType) :
    t.shortSignature.toList =
      t.declaration.name.short.toList ++ Signature.bracketedChars t.argumentChars := by
  rw [ClassType.shortSignature, String.toList_append, ClassType.argumentChars,
    ResolvedType.signatures_eq_map]
  cases hargs : t.arguments with
  | nil => simp [bracketed, Signature.bracketedChars]
  | cons r rest =>
    have hne : (r :: rest).map ResolvedType.signature ≠ [] := List.cons_ne_nil _ _
    rw [toList_bracketed hne]
    simp [Signature.bracketedChars, List.flatMap_def, Function.comp_def]

theorem ResolvedType.toList_signature_classType (t : ClassType) :
    t.toType.signature.toList =
      'L' :: t.declaration.name.short.toList ++ Signature.bracketedChars t.argumentChars ++
        [';'] := by
  rw [ClassType.signature_toType, String.toList_append, String.toList_append,
    t.toList_shortSignature]
  rfl

theorem ResolvedType.toList_signature_mark {base : ResolvedType}
    (h : Signature.IsMarked base.signature.toList) (n : Nat) :
    Signature.IsMarked (List.replicate n '[' ++ base.signature.toList) := by
  induction n with
  | zero => exact h
  | succ n ih =>
    rw [List.replicate_succ, List.cons_append]
    exact .mark (by decide) ih

mutual
/-- A legible type is written in the grammar. -/
theorem ResolvedType.Legible.isMarked {r : ResolvedType} (h : r.Legible c) :
    Signature.IsMarked r.signature.toList :=
  match r with
  | .primitive p => by
    rw [ResolvedType.signature, String.toList_singleton]
    exact .letter p
  | .array base dims => by
    rw [ResolvedType.signature, String.toList_append, String.toList_ofList]
    exact ResolvedType.toList_signature_mark (ResolvedType.Legible.isMarked (r := base) h.2) dims
  | .classType d arguments => by
    have hargs := ResolvedType.AllLegible.isMarked h.2.2
    show Signature.IsMarked (ClassType.mk d arguments).toType.signature.toList
    rw [ResolvedType.toList_signature_classType]
    exact .classType h.1 hargs
  | .typeVariable v => by
    rw [ResolvedType.signature, String.toList_append, String.toList_append]
    exact .typeVariable h
  | .anyWildcard => .any
  | .wildcard .upper bound => by
    rw [ResolvedType.signature, String.toList_append]
    exact .mark (by decide) (ResolvedType.Legible.isMarked (r := bound) h)
  | .wildcard .lower bound => by
    rw [ResolvedType.signature, String.toList_append]
    exact .mark (by decide) (ResolvedType.Legible.isMarked (r := bound) h)
  | .unknownClass n => by
    rw [ResolvedType.signature, BinaryName.signature, String.toList_append, String.toList_append]
    have hmarked := Signature.IsMarked.classType h.1 (List.forall_mem_nil Signature.IsMarked)
    simpa [Signature.bracketedChars] using hmarked
  | .nullType => h.elim
theorem ResolvedType.AllLegible.isMarked {types : List ResolvedType}
    (h : ResolvedType.AllLegible c types) :
    ∀ s ∈ types.map fun r => r.signature.toList, Signature.IsMarked s :=
  match types with
  | [] => List.forall_mem_nil _
  | t :: rest => by
    rw [List.map_cons, List.forall_mem_cons]
    exact ⟨ResolvedType.Legible.isMarked (r := t) h.1,
      ResolvedType.AllLegible.isMarked h.2⟩
end

end TypeCatalog
