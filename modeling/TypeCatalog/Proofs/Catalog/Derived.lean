import TypeCatalog.Member
import TypeCatalog.Proofs.Catalog.Legible

/-! # Signatures of derived types

    From a type that was resolved without variables in scope one comes to others, by way of its
    supertypes and its members. Their names can all be read back, but a wildcard that is an argument
    of a class can come to stand for a variable below an array or below another wildcard, where the
    grammar has none. So the signature of a derived class type is read exactly if no wildcard stands
    in such a place; and none does, as long as members are asked for on class types without
    wildcards among their arguments. -/

set_option autoImplicit false

namespace TypeCatalog

variable {c : Catalog}

/-! ## Section 1: Where wildcards stand -/

/-- Whether a type is a wildcard. -/
def ResolvedType.isWildcard : ResolvedType → Bool
  | .anyWildcard => true
  | .wildcard _ _ => true
  | _ => false

mutual
/-- No array and no wildcard is one of wildcards, at any depth. -/
def ResolvedType.Proper : ResolvedType → Prop
  | .array base _ => base.isWildcard = false ∧ base.Proper
  | .classType _ arguments => ResolvedType.AllProper arguments
  | .wildcard _ bound => bound.isWildcard = false ∧ bound.Proper
  | .primitive _ => True
  | .typeVariable _ => True
  | .anyWildcard => True
  | .unknownClass _ => True
  | .nullType => True
/-- Several types are so. -/
def ResolvedType.AllProper : List ResolvedType → Prop
  | [] => True
  | t :: rest => t.Proper ∧ ResolvedType.AllProper rest
end

theorem ResolvedType.allProper_iff {types : List ResolvedType} :
    ResolvedType.AllProper types ↔ ∀ r ∈ types, r.Proper := by
  induction types with
  | nil => simp [ResolvedType.AllProper]
  | cons t rest ih => rw [ResolvedType.AllProper, ih, List.forall_mem_cons]

/-- A type that may stand below an array or a wildcard. -/
def ResolvedType.Plain (r : ResolvedType) : Prop := r.isWildcard = false ∧ r.Proper

theorem ResolvedType.Plain.arrayOf {r : ResolvedType} (h : r.Plain) : (r.arrayOf 1).Plain := by
  rcases arrayOf_cases r 1 with ⟨base, dims, rfl, heq⟩ | ⟨-, heq⟩
  · rw [heq]
    exact h
  · rw [heq]
    exact ⟨rfl, h⟩

/-- What is built of plain types is plain, and wildcards of them are proper. -/
theorem Catalog.closed_plain (c : Catalog) :
    c.Closed ResolvedType.Plain ResolvedType.Proper where
  primitive _ := ⟨rfl, trivial⟩
  typeVariable _ := ⟨rfl, trivial⟩
  arrayOf h := h.arrayOf
  unknownClass _ _ := ⟨rfl, trivial⟩
  classType _ _ htypes := ⟨rfl, ResolvedType.allProper_iff.2 htypes⟩
  anyWildcard := trivial
  wildcard h := h
  argument h := h.2

/-! ## Section 2: A plain type is written in the grammar -/

namespace Signature

theorem isType_replicate {s : List Char} {t : TypeSignature} (h : IsType s t) (n : Nat) :
    ∃ t', IsType (List.replicate n '[' ++ s) t' := by
  induction n with
  | zero => exact ⟨t, h⟩
  | succ n ih =>
    obtain ⟨t', ht'⟩ := ih
    rw [List.replicate_succ, List.cons_append]
    exact ⟨.array t', .array ht'⟩

end Signature

open Signature

mutual
/-- A legible type that is plain is written in the grammar of types. -/
theorem ResolvedType.Legible.exists_isType {r : ResolvedType} (h : r.Legible c) (hr : r.Plain) :
    ∃ t, IsType r.signature.toList t :=
  match r with
  | .primitive p => by
    rw [ResolvedType.signature, String.toList_singleton]
    exact ⟨_, .primitive p⟩
  | .array base dims => by
    obtain ⟨t, ht⟩ := ResolvedType.Legible.exists_isType (r := base) h.2 hr.2
    rw [ResolvedType.signature, String.toList_append, String.toList_ofList]
    exact isType_replicate ht dims
  | .classType d arguments => by
    obtain ⟨as, has⟩ := ResolvedType.AllLegible.exists_isOptionalArguments h.2.2 hr.2
    show ∃ t, IsType (ClassType.mk d arguments).toType.signature.toList t
    rw [ResolvedType.toList_signature_classType, List.append_assoc]
    exact ⟨_, .classType h.1 (.close has)⟩
  | .typeVariable v => by
    rw [ResolvedType.signature, String.toList_append, String.toList_append]
    exact ⟨_, .typeVariable h⟩
  | .anyWildcard => nomatch hr.1
  | .wildcard _ _ => nomatch hr.1
  | .unknownClass n => by
    rw [ResolvedType.signature, BinaryName.signature, String.toList_append, String.toList_append,
      List.append_assoc]
    exact ⟨_, .classType h.1 (.close .none)⟩
  | .nullType => h.elim
termination_by (sizeOf r, 0)
theorem ResolvedType.Legible.exists_isArgument {r : ResolvedType} (h : r.Legible c)
    (hr : r.Proper) : ∃ a, IsArgument r.signature.toList a := by
  by_cases hwildcard : r.isWildcard
  · match r with
    | .anyWildcard => exact ⟨_, .any⟩
    | .wildcard .upper bound =>
      obtain ⟨t, ht⟩ := ResolvedType.Legible.exists_isType (r := bound) h hr
      rw [ResolvedType.signature, String.toList_append]
      exact ⟨_, .upper ht⟩
    | .wildcard .lower bound =>
      obtain ⟨t, ht⟩ := ResolvedType.Legible.exists_isType (r := bound) h hr
      rw [ResolvedType.signature, String.toList_append]
      exact ⟨_, .lower ht⟩
  · rw [Bool.not_eq_true] at hwildcard
    obtain ⟨t, ht⟩ := ResolvedType.Legible.exists_isType h ⟨hwildcard, hr⟩
    exact ⟨_, .exactly ht⟩
termination_by (sizeOf r, 1)
theorem ResolvedType.AllLegible.exists_isArguments {types : List ResolvedType}
    (h : ResolvedType.AllLegible c types) (hr : ResolvedType.AllProper types)
    (hne : types ≠ []) :
    ∃ as, IsArguments (types.map fun r => r.signature.toList).flatten as :=
  match types with
  | [] => absurd rfl hne
  | [r] => by
    obtain ⟨a, ha⟩ := ResolvedType.Legible.exists_isArgument h.1 hr.1
    rw [List.map_singleton, List.flatten_singleton]
    exact ⟨_, .last ha⟩
  | r :: r' :: rest => by
    obtain ⟨a, ha⟩ := ResolvedType.Legible.exists_isArgument h.1 hr.1
    obtain ⟨as, has⟩ := ResolvedType.AllLegible.exists_isArguments h.2 hr.2 (List.cons_ne_nil _ _)
    rw [List.map_cons, List.flatten_cons]
    exact ⟨_, .more ha has⟩
termination_by (sizeOf types, 0)
theorem ResolvedType.AllLegible.exists_isOptionalArguments {types : List ResolvedType}
    (h : ResolvedType.AllLegible c types) (hr : ResolvedType.AllProper types) :
    ∃ as, IsOptionalArguments (bracketedChars (types.map fun r => r.signature.toList)) as := by
  by_cases hempty : types = []
  · rw [hempty]
    exact ⟨_, .none⟩
  · obtain ⟨as, has⟩ := h.exists_isArguments hr hempty
    have hparts : (types.map fun r => r.signature.toList).isEmpty = false := by
      rw [List.isEmpty_map]
      exact List.isEmpty_eq_false_iff.2 hempty
    rw [bracketedChars, hparts, if_neg Bool.false_ne_true]
    exact ⟨_, .some has⟩
termination_by (sizeOf types, 1)
end

/-! ## Section 3: What is read is plain -/

namespace Signature

theorem exists_of_type_replicate {n : Nat} {s left : List Char} {t : TypeSignature}
    (h : (type (List.replicate n '[' ++ s)).outcome = .ok (t, left)) :
    ∃ t', (type s).outcome = .ok (t', left) := by
  induction n generalizing t with
  | zero => exact ⟨t, h⟩
  | succ n ih =>
    rw [List.replicate_succ, List.cons_append, outcome_type_array] at h
    obtain ⟨⟨element, mid⟩, helement, heq⟩ := map_eq_ok.1 h
    cases heq
    exact ih helement

/-- No type starts with a mark of a wildcard. -/
theorem not_outcome_type_mark {ch : Char} (hch : ch ∈ ['*', '+', '-']) {s left : List Char}
    {t : TypeSignature} : (type (ch :: s)).outcome ≠ .ok (t, left) := by
  intro h
  have hnone : Primitive.ofLetter? ch = none := by
    simp only [List.mem_cons, List.not_mem_nil, or_false] at hch
    rcases hch with rfl | rfl | rfl <;> decide
  rw [outcome_type_letter s (by rintro rfl; simp at hch) (by rintro rfl; simp at hch)
    (by rintro rfl; simp at hch), hnone] at h
  cases h

end Signature

/-- Only wildcards start with a mark of one. -/
theorem ResolvedType.Legible.eq_cons {r : ResolvedType} (h : r.Legible c)
    (hr : r.isWildcard = false) :
    ∃ ch s, r.signature.toList = ch :: s ∧ ch ∉ ['*', '+', '-'] := by
  cases r with
  | primitive p => exact ⟨p.letter, [], String.toList_singleton _, by cases p <;> decide⟩
  | array base dims =>
    obtain ⟨n, rfl⟩ := Nat.exists_eq_add_of_le' h.1
    refine ⟨'[', List.replicate n '[' ++ base.signature.toList, ?_, by decide⟩
    rw [ResolvedType.signature, String.toList_append, String.toList_ofList, List.replicate_succ]
    rfl
  | classType d arguments =>
    exact ⟨'L', _, ResolvedType.toList_signature_classType ⟨d, arguments⟩, by decide⟩
  | typeVariable v =>
    refine ⟨'T', v.name.toList ++ [';'], ?_, by decide⟩
    rw [ResolvedType.signature, String.toList_append, String.toList_append]
    rfl
  | unknownClass n =>
    refine ⟨'L', n.short.toList ++ [';'], ?_, by decide⟩
    rw [ResolvedType.signature, BinaryName.signature, String.toList_append, String.toList_append]
    rfl
  | anyWildcard => cases hr
  | wildcard kind bound => cases hr
  | nullType => exact h.elim

/-- What stands for the arguments of a class type does not start with the bracket that closes
    them. -/
theorem ResolvedType.AllLegible.head?_ne {types : List ResolvedType}
    (h : ResolvedType.AllLegible c types) (hne : types ≠ []) (rest : List Char) :
    ((types.map fun r => r.signature.toList).flatten ++ rest).head? ≠ some '>' := by
  cases types with
  | nil => exact absurd rfl hne
  | cons r types =>
    obtain ⟨ch, s, hs, hch⟩ := (ResolvedType.Legible.isMarked h.1).ne_close
    rw [List.map_cons, List.flatten_cons, hs, List.cons_append, List.cons_append, List.head?_cons]
    exact fun heq => hch (Option.some.inj heq)

/-- A legible type that is plain is read in front of any text. -/
theorem ResolvedType.Legible.left_eq {r : ResolvedType} (h : r.Legible c) (hr : r.Plain)
    {rest left : List Char} {t : TypeSignature}
    (hread : (type (r.signature.toList ++ rest)).outcome = .ok (t, left)) : left = rest := by
  obtain ⟨t', ht'⟩ := h.exists_isType hr
  rw [type_complete ht' rest] at hread
  cases hread
  rfl

mutual
/-- A legible type that is read as a type is plain. The induction is on the type; in front of a text
    that it does not belong to, what is left when it was read is that text. -/
theorem ResolvedType.Legible.plain_of_type {r : ResolvedType} (h : r.Legible c)
    {rest left : List Char} {t : TypeSignature}
    (hread : (type (r.signature.toList ++ rest)).outcome = .ok (t, left)) :
    r.Plain := by
  match r with
  | .primitive p => exact ⟨rfl, trivial⟩
  | .typeVariable v => exact ⟨rfl, trivial⟩
  | .unknownClass n => exact ⟨rfl, trivial⟩
  | .nullType => exact h.elim
  | .anyWildcard => exact absurd hread (not_outcome_type_mark (by decide))
  | .wildcard .upper bound =>
    rw [ResolvedType.signature, String.toList_append] at hread
    exact absurd hread (not_outcome_type_mark (by decide))
  | .wildcard .lower bound =>
    rw [ResolvedType.signature, String.toList_append] at hread
    exact absurd hread (not_outcome_type_mark (by decide))
  | .array base dims =>
    rw [ResolvedType.signature, String.toList_append, String.toList_ofList,
      List.append_assoc] at hread
    obtain ⟨t', hbase⟩ := exists_of_type_replicate hread
    exact ⟨rfl, ResolvedType.Legible.plain_of_type (r := base) h.2 hbase⟩
  | .classType d arguments =>
    by_cases hempty : arguments = []
    · rw [hempty]
      exact ⟨rfl, trivial⟩
    · -- The name ends at the bracket, so what is read next are the texts of the arguments.
      obtain ⟨hname, -, hargs⟩ := h
      have hparts : (arguments.map fun r => r.signature.toList).isEmpty = false := by
        rw [List.isEmpty_map]
        exact List.isEmpty_eq_false_iff.2 hempty
      have htext : (ResolvedType.classType d arguments).signature.toList ++ rest =
          'L' :: (d.name.short.toList ++ '<' ::
            ((arguments.map fun r => r.signature.toList).flatten ++ '>' :: ';' :: rest)) := by
        show (ClassType.mk d arguments).toType.signature.toList ++ rest = _
        rw [ResolvedType.toList_signature_classType, ClassType.argumentChars, bracketedChars,
          hparts, if_neg Bool.false_ne_true]
        simp
      rw [htext, outcome_type_class, outcome_name endsAt_segment hname (by decide)] at hread
      simp only [Except.bind, outcome_classTail_bracket] at hread
      rw [outcome_argumentList (hargs.head?_ne hempty _)] at hread
      obtain ⟨⟨as, mid⟩, harguments, -⟩ := bind_eq_ok.1 hread
      exact ⟨rfl, ResolvedType.AllLegible.proper_of_arguments hargs hempty harguments⟩
termination_by (sizeOf r, 0)
theorem ResolvedType.Legible.proper_of_argument {r : ResolvedType} (h : r.Legible c)
    {rest left : List Char} {a : TypeArgument}
    (hread : (argument (r.signature.toList ++ rest)).outcome = .ok (a, left)) :
    r.Proper ∧ left = rest := by
  by_cases hwildcard : r.isWildcard
  · match r with
    | .anyWildcard =>
      have hany := argument_complete .any rest
      rw [show ['*'] = ResolvedType.anyWildcard.signature.toList by rfl, hread] at hany
      cases hany
      exact ⟨trivial, rfl⟩
    | .wildcard .upper bound =>
      rw [ResolvedType.signature, String.toList_append] at hread
      obtain ⟨⟨t, mid⟩, ht, heq⟩ := map_eq_ok.1 (outcome_argument_upper _ ▸ hread)
      cases heq
      have hplain := ResolvedType.Legible.plain_of_type (r := bound) h ht
      exact ⟨hplain, ResolvedType.Legible.left_eq (r := bound) h hplain ht⟩
    | .wildcard .lower bound =>
      rw [ResolvedType.signature, String.toList_append] at hread
      obtain ⟨⟨t, mid⟩, ht, heq⟩ := map_eq_ok.1 (outcome_argument_lower _ ▸ hread)
      cases heq
      have hplain := ResolvedType.Legible.plain_of_type (r := bound) h ht
      exact ⟨hplain, ResolvedType.Legible.left_eq (r := bound) h hplain ht⟩
  · rw [Bool.not_eq_true] at hwildcard
    obtain ⟨ch, s, hs, hch⟩ := h.eq_cons hwildcard
    simp only [List.mem_cons, List.not_mem_nil, or_false, not_or] at hch
    have hexactly := outcome_argument_exactly (s ++ rest) hch.1 hch.2.1 hch.2.2
    rw [← List.cons_append, ← hs] at hexactly
    obtain ⟨⟨t, mid⟩, ht, heq⟩ := map_eq_ok.1 (hexactly ▸ hread)
    cases heq
    have hplain := ResolvedType.Legible.plain_of_type h ht
    exact ⟨hplain.2, h.left_eq hplain ht⟩
termination_by (sizeOf r, 1)
theorem ResolvedType.AllLegible.proper_of_arguments {types : List ResolvedType}
    (h : ResolvedType.AllLegible c types) (hne : types ≠ []) {rest left : List Char}
    {as : List TypeArgument}
    (hread : (arguments ((types.map fun r => r.signature.toList).flatten ++ '>' :: rest)).outcome =
      .ok (as, left)) : ResolvedType.AllProper types := by
  match types with
  | [] => exact absurd rfl hne
  | r :: types =>
    rw [List.map_cons, List.flatten_cons, List.append_assoc, outcome_arguments] at hread
    obtain ⟨⟨a, mid⟩, ha, hmore⟩ := bind_eq_ok.1 hread
    obtain ⟨hproper, rfl⟩ := ResolvedType.Legible.proper_of_argument h.1 ha
    refine ⟨hproper, ?_⟩
    by_cases hempty : types = []
    · rw [hempty]
      trivial
    · -- The next argument does not start with the closing bracket, so the list goes on.
      have hhead := ResolvedType.AllLegible.head?_ne h.2 hempty ('>' :: rest)
      simp only at hmore
      split at hmore
      · next r' heq =>
        rw [heq] at hhead
        exact absurd rfl hhead
      · obtain ⟨⟨others, left'⟩, hothers, -⟩ := map_eq_ok.1 hmore
        exact ResolvedType.AllLegible.proper_of_arguments h.2 hempty hothers
termination_by (sizeOf types, 0)
end

/-- The signature of a legible type is read exactly if the type is plain. -/
theorem ResolvedType.Legible.parse_signature_iff {r : ResolvedType} (h : r.Legible c) :
    (∃ t, TypeSignature.parse r.signature = .ok t) ↔ r.Plain := by
  constructor
  · rintro ⟨t, hparse⟩
    have hread := type_complete (parse_eq_ok_iff.1 hparse) []
    exact h.plain_of_type hread
  · intro hplain
    obtain ⟨t, ht⟩ := h.exists_isType hplain
    exact ⟨t, parse_eq_ok_iff.2 ht⟩

/-! ## Section 4: Derived types -/

/-- A type that a supertype or a member of a class type has. -/
inductive Catalog.MemberType (c : Catalog) (u : ClassType) : ResolvedType → Prop
  | supertype {r : ResolvedType} : r ∈ c.supertypes u → MemberType c u r
  | field {f : Field} : f ∈ u.declaration.fields → MemberType c u (f.type c u)
  | parameter {m : Method} {p : Parameter} :
      m ∈ u.declaration.methods → p ∈ m.parameters c u → MemberType c u p.type
  | result {m : Method} : m ∈ u.declaration.methods → MemberType c u (m.resultType c u)
  | constructorParameter {m : Constructor} {p : Parameter} :
      m ∈ u.declaration.constructors → p ∈ m.parameters c u → MemberType c u p.type

/-- A class type that is reached from a text without variables in scope through supertypes and
    members of class types that satisfy a condition. -/
inductive Catalog.Derives (c : Catalog) (P : ClassType → Prop) : ClassType → Prop
  | start {text : String} {t : ClassType} : c.resolve .empty text = t.toType → Derives c P t
  | step {u t : ClassType} : Derives c P u → P u → c.MemberType u t.toType → Derives c P t

/-- No argument of a class type is a wildcard. -/
def ClassType.HasExactArguments (t : ClassType) : Prop := ∀ r ∈ t.arguments, r.isWildcard = false

/-- Each type of a member is resolved inside the class type. -/
theorem Catalog.MemberType.exists_resolveIn {u : ClassType} {r : ResolvedType}
    (h : c.MemberType u r) : ∃ methodVariables text, r = c.resolveIn u methodVariables text := by
  have hparameter : ∀ {m : Callable} {p : Parameter}, p ∈ m.parameters c u →
      ∃ methodVariables text, p.type = c.resolveIn u methodVariables text := by
    intro m p hp
    obtain ⟨⟨text, i⟩, -, rfl⟩ := List.mem_map.1 hp
    exact ⟨_, text, rfl⟩
  cases h with
  | supertype hr =>
    obtain ⟨text, -, rfl⟩ := List.mem_map.1 hr
    exact ⟨[], text, rfl⟩
  | field hf => exact ⟨[], _, rfl⟩
  | parameter hm hp => exact hparameter hp
  | result hm => exact ⟨_, _, rfl⟩
  | constructorParameter hm hp => exact hparameter hp

/-- What resolution keeps holds of each derived class type, if the arguments of the class types on
    the way have it. The induction is on the way. -/
theorem Catalog.Derives.induct {P Q : ResolvedType → Prop} {C : ClassType → Prop} {t : ClassType}
    (h : c.Derives C t) (hP : c.Closed P Q) (hc : c.Keyed)
    (hargs : ∀ u, C u → P u.toType → ∀ r ∈ u.arguments, P r) : P t.toType := by
  induction h with
  | start htext => exact hP.resolve hc (hP.means hc (List.forall_mem_nil _)) htext
  | @step u t _ hu hmember ih =>
    obtain ⟨methodVariables, text, hr⟩ := hmember.exists_resolveIn
    have hmeans : (u.scope.withMethod methodVariables).Means c P := hP.means hc (hargs u hu ih)
    exact hP.resolve hc hmeans hr.symm

theorem Catalog.Keyed.legible_derives (hc : c.Keyed) {C : ClassType → Prop} {t : ClassType}
    (h : c.Derives C t) : t.toType.Legible c := by
  apply h.induct c.closed_legible hc
  intro u _ hu
  exact ResolvedType.allLegible_iff.1 hu.2.2

theorem Catalog.Keyed.plain_derives (hc : c.Keyed) {t : ClassType}
    (h : c.Derives ClassType.HasExactArguments t) : t.toType.Plain := by
  apply h.induct c.closed_plain hc
  intro u hexact hu r hr
  exact ⟨hexact r hr, ResolvedType.allProper_iff.1 hu.2 r hr⟩

/-- The signature of each class type that is derived is read, if its way there led through class
    types without wildcards among their arguments. In general the signature of a derived class type
    is read exactly if no array and no wildcard in the class type is one of wildcards. -/
theorem Catalog.derived_signature_parses (hc : c.Reachable) :
    (∀ t, c.Derives ClassType.HasExactArguments t →
      ∃ s, TypeSignature.parse t.toType.signature = .ok s) ∧
    ∀ t, c.Derives (fun _ => True) t →
      ((∃ s, TypeSignature.parse t.toType.signature = .ok s) ↔ t.toType.Proper) := by
  refine ⟨fun t ht => ?_, fun t ht => ?_⟩
  · exact (hc.keyed.legible_derives ht).parse_signature_iff.2 (hc.keyed.plain_derives ht)
  · rw [(hc.keyed.legible_derives ht).parse_signature_iff]
    exact ⟨fun h => h.2, fun h => ⟨rfl, h⟩⟩

/-- In a box of arrays, a field that is a box of arrays of the variable is a box of arrays of one
    more dimension. -/
theorem Catalog.derived_signature_parses_box :
    let box : ClassDeclaration := ⟨⟨"Box"⟩, ⟨0⟩, "", [⟨"T", []⟩], [],
      [⟨"items", "LBox<[TT;>;", ⟨1⟩, ""⟩], [], []⟩
    let c := Catalog.empty.insertDeclaration box
    let t : ClassType := ⟨box, [.array (.primitive .int) 2]⟩
    c.Derives ClassType.HasExactArguments t ∧ t.toType.signature = "LBox<[[I>;" ∧
      ∃ s, TypeSignature.parse t.toType.signature = .ok s := by
  intro box c t
  have hstart : readSignature? "LBox<[I>;" =
      some (.classType "Box" [.exactly (.array (.primitive .int))]) :=
    readSignature?_eq_some (by cbv)
  have hfield : readSignature? "LBox<[TT;>;" =
      some (.classType "Box" [.exactly (.array (.typeVariable "T"))]) :=
    readSignature?_eq_some (by cbv)
  have hget : c.get? "Box" = some (.raw box) := by
    simp [c, Catalog.get?_insertDeclaration, box]
  let u : ClassType := ⟨box, [.array (.primitive .int) 1]⟩
  have hu : c.resolve .empty "LBox<[I>;" = u.toType := by
    unfold Catalog.resolve
    rw [hstart]
    simp only [Catalog.resolveSignature, hget]
    rfl
  have htype : Field.type ⟨"items", "LBox<[TT;>;", ⟨1⟩, ""⟩ c u = t.toType := by
    unfold Field.type Catalog.resolve
    rw [hfield]
    simp only [Catalog.resolveSignature, hget]
    rfl
  have hexact : u.HasExactArguments := by
    intro r hr
    rw [List.mem_singleton.1 hr]
    rfl
  have hmember : c.MemberType u t.toType := by
    rw [← htype]
    exact .field List.mem_cons_self
  have hderives : c.Derives ClassType.HasExactArguments t := .step (.start hu) hexact hmember
  have hc : c.Reachable := .insertDeclaration box .empty
  exact ⟨hderives, by decide, (Catalog.derived_signature_parses hc).1 t hderives⟩

/-- The supertype of a class with a wildcard, which has an array of the variable for its argument,
    has a wildcard below an array; no text of a type has one there. -/
theorem Catalog.derived_signature_fails :
    let box : ClassDeclaration := ⟨⟨"Box"⟩, ⟨0⟩, "", [⟨"T", []⟩], [], [], [], []⟩
    let sub : ClassDeclaration := ⟨⟨"Sub"⟩, ⟨0⟩, "", [⟨"T", []⟩], ["LBox<[TT;>;"], [], [], []⟩
    let c := (Catalog.empty.insertDeclaration box).insertDeclaration sub
    let t : ClassType := ⟨box, [.array (.wildcard .upper (.unknownClass ⟨"S"⟩)) 1]⟩
    c.Reachable ∧ (∃ s, TypeSignature.parse "LBox<[TT;>;" = .ok s) ∧
      c.Derives (fun _ => True) t ∧ t.toType.signature = "LBox<[+LS;>;" ∧
      ∀ s, TypeSignature.parse "LBox<[+LS;>;" ≠ .ok s := by
  intro box sub c t
  have hstart : readSignature? "LSub<+LS;>;" =
      some (.classType "Sub" [.upper (.classType "S" [])]) := readSignature?_eq_some (by cbv)
  have hparse : TypeSignature.parse "LBox<[TT;>;" =
      .ok (.classType "Box" [.exactly (.array (.typeVariable "T"))]) :=
    parse_eq_ok_iff_wholeType.2 (by cbv)
  have hbox : c.get? "Box" = some (.raw box) := by
    simp [c, Catalog.get?_insertDeclaration, box, sub]
  have hsub : c.get? "Sub" = some (.raw sub) := by
    simp [c, Catalog.get?_insertDeclaration, sub]
  have hunknown : c.get? "S" = none := by simp [c, Catalog.get?_insertDeclaration, box, sub]
  let u : ClassType := ⟨sub, [.wildcard .upper (.unknownClass ⟨"S"⟩)]⟩
  have hu : c.resolve .empty "LSub<+LS;>;" = u.toType := by
    unfold Catalog.resolve
    rw [hstart]
    simp only [Catalog.resolveSignature, Catalog.resolveArguments, Catalog.resolveArgument, hsub,
      hunknown]
    rfl
  have hsuper : c.supertypes u = [t.toType] := by
    show [c.resolveIn u [] "LBox<[TT;>;"] = _
    unfold Catalog.resolveIn Catalog.resolve readSignature?
    rw [hparse]
    simp only [Catalog.resolveSignature, hbox]
    rfl
  have hmember : c.MemberType u t.toType := by
    apply Catalog.MemberType.supertype
    rw [hsuper]
    exact List.mem_cons_self
  have hc : c.Reachable := .insertDeclaration sub (.insertDeclaration box .empty)
  have hderives : c.Derives (fun _ => True) t := .step (.start hu) trivial hmember
  refine ⟨hc, ⟨_, hparse⟩, hderives, by decide, fun s hs => ?_⟩
  have hplain := (hc.keyed.legible_derives hderives).parse_signature_iff.1 ⟨s, hs⟩
  cases hplain.2.1.1

end TypeCatalog
