import TypeCatalog.Proofs.Catalog.Legible
import TypeCatalog.Proofs.Matching

/-! # Arrays are never nested

    The dimensions of an array are counted, so an array of arrays can be written in two ways, and
    types are only compared and matched rightly if one of them is never used. Arrays are put
    together where a signature is resolved, where variables are replaced and where a call is matched
    with its arguments; what comes in the place of an element can be an array each time. Everything
    that is made of flat types in these places is flat again.

    The invariant of a match is that variables stand for flat types, `Bindings.Flat`. -/

set_option autoImplicit false

namespace TypeCatalog

/-! ## Section 1: Flat types -/

mutual
/-- Each array in a type, at any depth, has a dimension and a base that is no array. -/
def ResolvedType.Flat : ResolvedType → Prop
  | .array base dims => 1 ≤ dims ∧ base.isArray = false ∧ base.Flat
  | .classType _ arguments => ResolvedType.AllFlat arguments
  | .wildcard _ bound => bound.Flat
  | .typeVariable _ => True
  | .primitive _ => True
  | .anyWildcard => True
  | .unknownClass _ => True
  | .nullType => True
/-- Several types are flat. -/
def ResolvedType.AllFlat : List ResolvedType → Prop
  | [] => True
  | t :: rest => t.Flat ∧ ResolvedType.AllFlat rest
end

theorem ResolvedType.allFlat_iff {types : List ResolvedType} :
    ResolvedType.AllFlat types ↔ ∀ r ∈ types, r.Flat := by
  induction types with
  | nil => simp [ResolvedType.AllFlat]
  | cons t rest ih => rw [ResolvedType.AllFlat, ih, List.forall_mem_cons]

/-- An array of arrays is one array of all their dimensions. -/
theorem ResolvedType.Flat.arrayOf {r : ResolvedType} (h : r.Flat) {dims : Nat} (hdims : 1 ≤ dims) :
    (r.arrayOf dims).Flat := by
  rcases arrayOf_cases r dims with ⟨base, n, rfl, heq⟩ | ⟨hr, heq⟩
  · obtain ⟨hn, hbase⟩ := h
    rw [heq]
    exact ⟨Nat.le_add_right_of_le hn, hbase⟩
  · rw [heq]
    exact ⟨hdims, hr, h⟩

/-! ## Section 2: Dimensions that are taken off -/

theorem passesOn_flat : PassesOn ResolvedType.Flat where
  base h := h.2.2
  array h hleft := ⟨hleft, h.2⟩
  bound h := h
  nullType := trivial

/-- What is left of a type after some dimensions; only an array has any. -/
def ResolvedType.strip? (t : ResolvedType) (count : Nat) : Option ResolvedType :=
  match t with
  | .array base dims => stripDimensions base dims count
  | _ => none

/-- As long as an array is left after the first ones, dimensions may be taken off in two steps. -/
theorem stripDimensions_add (base : ResolvedType) {dims a : Nat} (b : Nat) (h : a < dims) :
    stripDimensions base dims (a + b) =
      (stripDimensions base dims a).bind fun r => r.strip? b := by
  have hleft : stripDimensions base dims a = some (.array base (dims - a)) :=
    stripDimensions_eq_some.2 (.inr ⟨h, rfl⟩)
  have htwice : stripDimensions base dims (a + b) = stripDimensions base (dims - a) b := by
    apply Option.ext
    intro r
    have heq : a + b = dims ↔ b = dims - a := by omega
    have hlt : a + b < dims ↔ b < dims - a := by omega
    rw [stripDimensions_eq_some, stripDimensions_eq_some, heq, hlt, Nat.sub_add_eq]
  rw [hleft, htwice]
  rfl

/-! ## Section 3: Resolution -/

section catalogs

variable {c : Catalog}

/-- What is built of flat types is flat. -/
theorem Catalog.closed_flat (c : Catalog) : c.Closed ResolvedType.Flat ResolvedType.Flat where
  primitive _ := trivial
  typeVariable _ := trivial
  arrayOf h := h.arrayOf (Nat.le_refl 1)
  unknownClass _ _ := trivial
  classType _ _ htypes := ResolvedType.allFlat_iff.2 htypes
  anyWildcard := trivial
  wildcard h := h
  argument h := h

/-- Whatever the text is: what it does not find stays a name, and what cannot be read is one. -/
theorem Catalog.Keyed.flat_resolve (hc : c.Keyed) {s : Scope}
    (hs : ∀ r ∈ s.classArguments, r.Flat) (text : String) : (c.resolve s text).Flat := by
  unfold Catalog.resolve
  cases hread : readSignature? text with
  | none => trivial
  | some t =>
    have hmeans := c.closed_flat.means hc hs
    exact c.closed_flat.resolveSignature hc hmeans t (wellFormed_of_readSignature? hread)

/-- The root class, which stands for the arguments that are missing, is flat. -/
theorem Catalog.Keyed.allFlat_argumentsFor (hc : c.Keyed) (d : ClassDeclaration)
    {types : List ResolvedType} (h : ResolvedType.AllFlat types) :
    ResolvedType.AllFlat (c.argumentsFor d types) := by
  rw [ResolvedType.allFlat_iff] at h ⊢
  intro r hr
  rcases mem_fillArguments hr with rfl | hr
  · exact c.closed_flat.objectType hc
  · exact h r hr

theorem Catalog.Keyed.flat_specialise (hc : c.Keyed) (t : ClassType) {types : List ResolvedType}
    (h : ∀ r ∈ types, r.Flat) : (c.specialise t types).toType.Flat :=
  hc.allFlat_argumentsFor t.declaration (ResolvedType.allFlat_iff.2 h)

/-! ## Section 4: Matches -/

/-- What variables stand for is flat. -/
def Bindings.Flat (b : Bindings) : Prop := ∀ n t, b.get? n = some t → t.Flat

theorem Bindings.flat_nil : Bindings.Flat [] := by
  intro n t h
  cases h

theorem Bindings.Flat.bind {b : Bindings} (hb : b.Flat) {t : ResolvedType} (ht : t.Flat)
    (name : String) : (b.bind name t).Flat :=
  Bindings.forall_get?_bind hb ht name

mutual
/-- A variable can become an array below an array, whose dimensions are then added. -/
theorem Catalog.Keyed.flat_substitute (hc : c.Keyed) {b : Bindings} (hb : b.Flat)
    (t : ResolvedType) (ht : t.Flat) : (c.substitute b t).Flat := by
  match t with
  | .typeVariable v =>
    rw [Catalog.substitute]
    cases hget : b.get? v.name with
    | some u => exact hb v.name u hget
    | none => trivial
  | .array base dims =>
    -- That the base is no array is lost on the way; `arrayOf` does not ask for it.
    obtain ⟨hdims, -, hbase⟩ := ht
    exact (hc.flat_substitute hb base hbase).arrayOf hdims
  | .classType d arguments =>
    rw [Catalog.substitute]
    split
    · exact ht
    · exact hc.allFlat_argumentsFor d (hc.allFlat_substituteAll hb arguments ht)
  | .wildcard kind bound => exact hc.flat_substitute hb bound ht
  | .primitive p => trivial
  | .anyWildcard => trivial
  | .unknownClass n => trivial
  | .nullType => trivial
theorem Catalog.Keyed.allFlat_substituteAll (hc : c.Keyed) {b : Bindings} (hb : b.Flat)
    (types : List ResolvedType) (ht : ResolvedType.AllFlat types) :
    ResolvedType.AllFlat (c.substituteAll b types) := by
  match types with
  | [] => trivial
  | t :: rest => exact ⟨hc.flat_substitute hb t ht.1, hc.allFlat_substituteAll hb rest ht.2⟩
end

mutual
/-- One match makes a flat type, and variables stand for flat types afterwards. The induction is on
    the type of the parameter; the parts of the argument that are handed on are flat. -/
theorem Catalog.Keyed.flat_infer (hc : c.Keyed) {b : Bindings} (hb : b.Flat) (t : ResolvedType)
    (ht : t.Flat) (argument : Option ResolvedType) (ha : ∀ u, argument = some u → u.Flat) :
    (c.infer b t argument).1.Flat ∧ (c.infer b t argument).2.Flat := by
  match t with
  | .typeVariable v =>
    rcases infer_typeVariable_cases c b argument v with
      ⟨u, hget, heq⟩ | ⟨-, -, heq⟩ | ⟨u, -, hu, -, heq⟩
    · rw [heq]
      exact ⟨hb v.name u hget, hb⟩
    · rw [heq]
      exact ⟨trivial, hb⟩
    · rw [heq]
      exact ⟨ha u hu, hb.bind (ha u hu) v.name⟩
  | .array base dims =>
    rw [Catalog.infer]
    cases helement : elementArgument? dims argument with
    | some element =>
      obtain ⟨hdims, -, hbase⟩ := ht
      have hpart : ∀ u, some element = some u → u.Flat := by
        rintro u ⟨⟩
        exact passesOn_flat.elementArgument? ha helement
      obtain ⟨htype, hbindings⟩ := hc.flat_infer hb base hbase (some element) hpart
      exact ⟨htype.arrayOf hdims, hbindings⟩
    | none => exact ⟨hc.flat_substitute hb (.array base dims) ht, hb⟩
  | .classType d arguments =>
    rcases infer_classType_cases c b argument d arguments with
      ⟨-, heq⟩ | ⟨d', given, hgiven, heq⟩ | ⟨-, heq⟩
    · rw [heq]
      exact ⟨trivial, hb⟩
    · obtain ⟨htypes, hbindings⟩ := hc.allFlat_inferAll hb arguments ht given (ha _ hgiven)
      rw [heq]
      exact ⟨hc.allFlat_argumentsFor d htypes, hbindings⟩
    · rw [heq]
      exact ⟨hc.flat_substitute hb (.classType d arguments) ht, hb⟩
  | .wildcard kind bound =>
    rw [Catalog.infer]
    exact hc.flat_infer hb bound ht (boundArgument? argument) fun u hu =>
      passesOn_flat.boundArgument? ha hu
  | .primitive p =>
    rw [Catalog.infer]
    exact ⟨trivial, hb⟩
  | .anyWildcard =>
    rw [Catalog.infer]
    exact ⟨trivial, hb⟩
  | .unknownClass n =>
    rw [Catalog.infer]
    exact ⟨trivial, hb⟩
  | .nullType =>
    rw [Catalog.infer]
    exact ⟨trivial, hb⟩
theorem Catalog.Keyed.allFlat_inferAll (hc : c.Keyed) {b : Bindings} (hb : b.Flat)
    (types : List ResolvedType) (ht : ResolvedType.AllFlat types) (given : List ResolvedType)
    (hgiven : ResolvedType.AllFlat given) :
    ResolvedType.AllFlat (c.inferAll b types given).1 ∧ (c.inferAll b types given).2.Flat := by
  match types, given with
  | [], given =>
    rw [Catalog.inferAll]
    exact ⟨trivial, hb⟩
  | t :: rest, [] =>
    -- Those past the last one given stay as they are.
    rw [Catalog.inferAll]
    exact ⟨ht, hb⟩
  | t :: rest, g :: others =>
    obtain ⟨htype, hbindings⟩ := hc.flat_infer hb t ht.1 (some g) (by
      rintro u ⟨⟩
      exact hgiven.1)
    obtain ⟨htypes, hbindings'⟩ := hc.allFlat_inferAll hbindings rest ht.2 others hgiven.2
    rw [Catalog.inferAll]
    exact ⟨⟨htype, htypes⟩, hbindings'⟩
end

/-- Parameters from left to right, the bindings of each handed on to the next. -/
theorem Catalog.Keyed.flat_inferParameters (hc : c.Keyed) {b : Bindings} (hb : b.Flat)
    (parameters : List Parameter) (hp : ∀ p ∈ parameters, p.type.Flat)
    {arguments : List ResolvedType} (ha : ∀ a ∈ arguments, a.Flat) :
    (∀ p ∈ (c.inferParameters b parameters arguments).1, p.type.Flat) ∧
      (c.inferParameters b parameters arguments).2.Flat := by
  induction parameters generalizing b arguments with
  | nil => exact ⟨List.forall_mem_nil _, hb⟩
  | cons p rest ih =>
    obtain ⟨htype, hbindings⟩ := hc.flat_infer hb p.type (hp p List.mem_cons_self) arguments.head?
      fun u hu => ha u (List.mem_of_head? hu)
    obtain ⟨hothers, hbindings'⟩ := ih hbindings (fun q hq => hp q (List.mem_cons_of_mem p hq))
      fun a hmem => ha a (List.mem_of_mem_tail hmem)
    exact ⟨List.forall_mem_cons.2 ⟨htype, hothers⟩, hbindings'⟩

/-! ## Section 5: Inside a class type -/

section owner

variable {owner : ClassType}

theorem Catalog.Keyed.flat_resolveIn (hc : c.Keyed) (howner : ∀ r ∈ owner.arguments, r.Flat)
    (methodVariables : List TypeVariable) (text : String) :
    (c.resolveIn owner methodVariables text).Flat :=
  hc.flat_resolve (s := owner.scope.withMethod methodVariables) howner text

theorem Catalog.Keyed.flat_supertypes (hc : c.Keyed) (howner : ∀ r ∈ owner.arguments, r.Flat) :
    ∀ r ∈ c.supertypes owner, r.Flat := by
  intro r hr
  obtain ⟨text, -, rfl⟩ := List.mem_map.1 hr
  exact hc.flat_resolveIn howner [] text

theorem Catalog.Keyed.flat_parameters (hc : c.Keyed) (howner : ∀ r ∈ owner.arguments, r.Flat)
    (m : Callable) : ∀ p ∈ m.parameters c owner, p.type.Flat := by
  intro p hp
  obtain ⟨⟨text, i⟩, -, rfl⟩ := List.mem_map.1 hp
  exact hc.flat_resolveIn howner m.parts.typeVariables text

/-- What the parameters of a call come to, and what variables stand for after the last one. -/
theorem Catalog.Keyed.flat_matched (hc : c.Keyed) (howner : ∀ r ∈ owner.arguments, r.Flat)
    (m : Callable) {arguments : List ResolvedType} (ha : ∀ a ∈ arguments, a.Flat) :
    (∀ p ∈ (c.inferParameters [] (m.parameters c owner) arguments).1, p.type.Flat) ∧
      (c.inferParameters [] (m.parameters c owner) arguments).2.Flat :=
  hc.flat_inferParameters Bindings.flat_nil _ (hc.flat_parameters howner m) ha

/-- The result is written when all arguments were looked at. -/
theorem Catalog.Keyed.flat_methodCall (hc : c.Keyed) (howner : ∀ r ∈ owner.arguments, r.Flat)
    (m : Method) {arguments : List ResolvedType} (ha : ∀ a ∈ arguments, a.Flat) :
    (∀ p ∈ (m.call c owner arguments).parameters, p.type.Flat) ∧
      (m.call c owner arguments).result.Flat := by
  obtain ⟨hparameters, hbindings⟩ := hc.flat_matched howner m.toCallable ha
  have hresult : (m.resultType c owner).Flat :=
    hc.flat_resolveIn howner m.parts.typeVariables m.parts.result
  exact ⟨hparameters, hc.flat_substitute hbindings _ hresult⟩

theorem Catalog.Keyed.flat_constructorCall (hc : c.Keyed) (howner : ∀ r ∈ owner.arguments, r.Flat)
    (m : Constructor) {arguments : List ResolvedType} (ha : ∀ a ∈ arguments, a.Flat) :
    ∀ p ∈ (m.call c owner arguments).parameters, p.type.Flat :=
  (hc.flat_matched howner m.toCallable ha).1

end owner

/-- What is made of flat types is flat: a text that is resolved where variables stand for flat
    types, a class that is specialised with them, the texts and the supertypes inside a class that
    is specialised with them, the parameters and the result of a call with such arguments, and what
    is left of an array. Dimensions that are taken off such an array in two steps are taken off it
    in one, as long as the first step leaves an array. -/
theorem Catalog.flat_of_flat (hc : c.Reachable) :
    (∀ (s : Scope) (text : String), (∀ r ∈ s.classArguments, r.Flat) → (c.resolve s text).Flat) ∧
    (∀ (t : ClassType) (types : List ResolvedType), (∀ r ∈ types, r.Flat) →
      (c.specialise t types).toType.Flat) ∧
    (∀ owner : ClassType, (∀ r ∈ owner.arguments, r.Flat) →
      (∀ methodVariables text, (c.resolveIn owner methodVariables text).Flat) ∧
      (∀ r ∈ c.supertypes owner, r.Flat) ∧
      ∀ arguments : List ResolvedType, (∀ a ∈ arguments, a.Flat) →
        (∀ m : Method, (∀ p ∈ (m.call c owner arguments).parameters, p.type.Flat) ∧
          (m.call c owner arguments).result.Flat) ∧
        ∀ m : Constructor, ∀ p ∈ (m.call c owner arguments).parameters, p.type.Flat) ∧
    ∀ (base : ResolvedType) (dims : Nat), (ResolvedType.array base dims).Flat →
      (∀ count r, stripDimensions base dims count = some r → r.Flat) ∧
      ∀ a b, a < dims → stripDimensions base dims (a + b) =
        (stripDimensions base dims a).bind fun r => r.strip? b := by
  have hkeyed := hc.keyed
  refine ⟨?_, ?_, ?_, ?_⟩
  · intro s text hs
    exact hkeyed.flat_resolve hs text
  · intro t types htypes
    exact hkeyed.flat_specialise t htypes
  · intro owner howner
    refine ⟨hkeyed.flat_resolveIn howner, hkeyed.flat_supertypes howner, ?_⟩
    intro arguments ha
    exact ⟨fun m => hkeyed.flat_methodCall howner m ha,
      fun m => hkeyed.flat_constructorCall howner m ha⟩
  · intro base dims hflat
    refine ⟨?_, ?_⟩
    · intro count r hstrip
      exact passesOn_flat.stripDimensions hflat hstrip
    · intro a b ha
      exact stripDimensions_add base b ha

/-- In a box of arrays, with a superclass and a method that take arrays of the variable: the
    dimensions of both are added wherever one array comes below the other. -/
theorem Catalog.flat_of_flat_box :
    let box : ClassDeclaration :=
      ⟨⟨"Box"⟩, ⟨0⟩, "", [⟨"T", []⟩], ["LBox<[TT;>;"], [], [], []⟩
    let c := Catalog.empty.insertDeclaration box
    let m : Method := ⟨⟨⟨1⟩, "", "", ⟨[⟨"U", []⟩], ["[TU;", "[TT;"], "[[TU;", []⟩, [], false⟩, "f"⟩
    let ints : Nat → ResolvedType := .array (.primitive .int)
    let owner : ClassType := ⟨box, [ints 1]⟩
    let call := m.call c owner [ints 2, .nullType]
    c.Reachable ∧ (∀ r ∈ owner.arguments, r.Flat) ∧ (∀ a ∈ [ints 2, .nullType], a.Flat) ∧
      c.resolve owner.scope "[TT;" = ints 2 ∧ (c.resolve owner.scope "[TT;").Flat ∧
      (c.specialise (.raw box) [ints 1]).toType.Flat ∧
      c.supertypes owner = [.classType box [ints 2]] ∧ (∀ r ∈ c.supertypes owner, r.Flat) ∧
      call.parameters.map Parameter.type = [ints 2, ints 2] ∧
      (∀ p ∈ call.parameters, p.type.Flat) ∧ call.result = ints 3 ∧ call.result.Flat ∧
      (ints 3).Flat ∧ 1 < 3 ∧ stripDimensions (.primitive .int) 3 (1 + 1) = some (ints 1) ∧
      stripDimensions (.primitive .int) 3 (1 + 1) =
        (stripDimensions (.primitive .int) 3 1).bind fun r => r.strip? 1 := by
  intro box c m ints owner call
  have hvariable : readSignature? "[TT;" = some (.array (.typeVariable "T")) :=
    readSignature?_eq_some (by cbv)
  have hsuper : readSignature? "LBox<[TT;>;" =
      some (.classType "Box" [.exactly (.array (.typeVariable "T"))]) :=
    readSignature?_eq_some (by cbv)
  have hparameter : readSignature? "[TU;" = some (.array (.typeVariable "U")) :=
    readSignature?_eq_some (by cbv)
  have hresult : readSignature? "[[TU;" = some (.array (.array (.typeVariable "U"))) :=
    readSignature?_eq_some (by cbv)
  have hget : c.get? "Box" = some (.raw box) := by
    simp [c, Catalog.get?_insertDeclaration, box]
  have hresolve : c.resolve owner.scope "[TT;" = ints 2 := by
    unfold Catalog.resolve
    rw [hvariable]
    rfl
  have hsupertypes : c.supertypes owner = [.classType box [ints 2]] := by
    show [c.resolveIn owner [] "LBox<[TT;>;"] = _
    unfold Catalog.resolveIn Catalog.resolve
    rw [hsuper]
    simp only [Catalog.resolveSignature, hget]
    rfl
  have hparameters : m.parameters c owner =
      [⟨"arg0", .array (.typeVariable ⟨"U", []⟩) 1, false⟩, ⟨"arg1", ints 2, false⟩] := by
    show [m.parameter c owner 0 "[TU;", m.parameter c owner 1 "[TT;"] = _
    unfold Callable.parameter Catalog.resolve
    rw [hparameter, hvariable, show m.isVariableArity = false by decide]
    rfl
  have hresultType : m.resultType c owner = .array (.typeVariable ⟨"U", []⟩) 2 := by
    show c.resolve (m.scope owner) "[[TU;" = _
    unfold Catalog.resolve
    rw [hresult]
    rfl
  -- The first argument tells that `U` is an array; null leaves the second parameter as it is.
  have hcall : call.parameters.map Parameter.type = [ints 2, ints 2] ∧ call.result = ints 3 := by
    show (Method.call m c owner [ints 2, .nullType]).parameters.map Parameter.type = _ ∧
      (Method.call m c owner [ints 2, .nullType]).result = _
    unfold Method.call
    rw [hparameters, hresultType]
    exact ⟨rfl, rfl⟩
  have hints : ∀ n, 1 ≤ n → (ints n).Flat := fun n hn => ⟨hn, rfl, trivial⟩
  have howner : ∀ r ∈ owner.arguments, r.Flat :=
    List.forall_mem_singleton.2 (hints 1 (by decide))
  have harguments : ∀ a ∈ [ints 2, .nullType], a.Flat :=
    ResolvedType.allFlat_iff.1 ⟨hints 2 (by decide), trivial, trivial⟩
  have hc : c.Reachable := .insertDeclaration box .empty
  obtain ⟨htexts, hspecialise, hinside, hstrip⟩ := Catalog.flat_of_flat hc
  obtain ⟨-, hsupers, hcalls⟩ := hinside owner howner
  obtain ⟨hflat, hflat'⟩ := (hcalls _ harguments).1 m
  have hdeep : (ints 3).Flat := hints 3 (by decide)
  have htwice := (hstrip (.primitive .int) 3 hdeep).2 1 1 (by decide)
  exact ⟨hc, howner, harguments, hresolve, htexts owner.scope "[TT;" howner,
    hspecialise (.raw box) [ints 1] howner, hsupertypes, hsupers, hcall.1, hflat, hcall.2, hflat',
    hdeep, by decide, rfl, htwice⟩

end catalogs

/-! ## Section 6: Types along a session -/

/-- A type that is made step by step out of texts, each step in a catalog that loading can reach. -/
inductive ResolvedType.Made : ResolvedType → Prop
  | resolve {c : Catalog} {s : Scope} (text : String) :
      c.Reachable → (∀ r ∈ s.classArguments, Made r) → Made (c.resolve s text)
  | specialise {c : Catalog} (t : ClassType) {types : List ResolvedType} :
      c.Reachable → (∀ r ∈ types, Made r) → Made (c.specialise t types).toType
  | arrayOf {r : ResolvedType} {dims : Nat} : Made r → 1 ≤ dims → Made (r.arrayOf dims)
  | anyWildcard : Made .anyWildcard
  | wildcard (kind : WildcardKind) {bound : ResolvedType} : Made bound → Made (.wildcard kind bound)
  | nullType : Made .nullType
  | strip {t r : ResolvedType} {count : Nat} : Made t → t.strip? count = some r → Made r
  | supertype {c : Catalog} {owner : ClassType} {r : ResolvedType} :
      c.Reachable → Made owner.toType → r ∈ c.supertypes owner → Made r
  | parameter {c : Catalog} {owner : ClassType} {m : Method} {arguments : List ResolvedType}
      {p : Parameter} : c.Reachable → Made owner.toType → (∀ a ∈ arguments, Made a) →
      p ∈ (m.call c owner arguments).parameters → Made p.type
  | result {c : Catalog} {owner : ClassType} (m : Method) {arguments : List ResolvedType} :
      c.Reachable → Made owner.toType → (∀ a ∈ arguments, Made a) →
      Made (m.call c owner arguments).result
  | constructorParameter {c : Catalog} {owner : ClassType} {m : Constructor}
      {arguments : List ResolvedType} {p : Parameter} :
      c.Reachable → Made owner.toType → (∀ a ∈ arguments, Made a) →
      p ∈ (m.call c owner arguments).parameters → Made p.type

/-- No array of arrays is ever made. The induction is on the steps; a class type is flat if its
    arguments are, which is what the scope inside it asks for. -/
theorem ResolvedType.Made.flat {r : ResolvedType} (h : r.Made) : r.Flat := by
  induction h with
  | resolve text hc _ ih => exact hc.keyed.flat_resolve ih text
  | specialise t hc _ ih => exact hc.keyed.flat_specialise t ih
  | arrayOf _ hdims ih => exact ih.arrayOf hdims
  | anyWildcard => trivial
  | wildcard kind _ ih => exact ih
  | nullType => trivial
  | @strip t r count _ hstrip ih =>
    cases t with
    | array base dims => exact passesOn_flat.stripDimensions ih hstrip
    | _ => cases hstrip
  | supertype hc _ hmem ih =>
    exact hc.keyed.flat_supertypes (ResolvedType.allFlat_iff.1 ih) _ hmem
  | parameter hc _ _ hmem ih iha =>
    exact (hc.keyed.flat_methodCall (ResolvedType.allFlat_iff.1 ih) _ iha).1 _ hmem
  | result m hc _ _ ih iha =>
    exact (hc.keyed.flat_methodCall (ResolvedType.allFlat_iff.1 ih) m iha).2
  | constructorParameter hc _ _ hmem ih iha =>
    exact hc.keyed.flat_constructorCall (ResolvedType.allFlat_iff.1 ih) _ iha _ hmem

end TypeCatalog
