import TypeCatalog.Proofs.Catalog.Contents
import TypeCatalog.Proofs.Catalog.Resolution

/-! # Growing catalogs

    A catalog is loaded step by step, and types are resolved in between. What was not found yet
    stays a name, and may be found later on; where nothing was missing, nothing changes any more.

    * `Catalog.within_foldl_run`: loading grows a catalog as long as no class type takes the place
      of another one.
    * `Catalog.resolve_within`: what is resolved to known classes throughout is resolved to the same
      in every catalog that grows out of this one, and so are supertypes. -/

set_option autoImplicit false

namespace TypeCatalog

/-! ## Section 1: Catalogs that hold another -/

/-- A catalog has all entries of this one, and perhaps more. -/
def Catalog.Within (c c' : Catalog) : Prop := ∀ key t, c.get? key = some t → c'.get? key = some t

/-- Steps of loading grow a catalog if no class type they put in takes the place of another one: its
    key is new, or what stands there is the same class type. -/
theorem Catalog.within_foldl_run {c : Catalog} {steps : List Step}
    (h : ∀ t ∈ steps.flatMap Step.produced, ∀ u, c.get? t.shortSignature = some u → u = t) :
    c.Within (steps.foldl Step.run c) := by
  intro key u hget
  -- What stands under a key afterwards is the last that was put there, or else what was there.
  rw [Catalog.foldl_run_eq, Catalog.get?_foldl_insert]
  cases hfind : (steps.flatMap Step.produced).reverse.find? fun t => t.shortSignature = key with
  | none => exact hget
  | some t =>
    have hmem : t ∈ steps.flatMap Step.produced :=
      List.mem_reverse.1 (List.mem_of_find?_eq_some hfind)
    have hkey : t.shortSignature = key := by simpa using List.find?_some hfind
    rw [← hkey] at hget
    rw [h t hmem u hget]
    rfl

/-! ## Section 2: Known types -/

mutual
/-- Whether no class in a type is unknown, at any depth. -/
def ResolvedType.isKnown : ResolvedType → Bool
  | .array base _ => base.isKnown
  | .classType _ arguments => ResolvedType.allKnown arguments
  | .wildcard _ bound => bound.isKnown
  | .unknownClass _ => false
  | .primitive _ | .typeVariable _ | .anyWildcard | .nullType => true
/-- Whether no class in any of some types is unknown. -/
def ResolvedType.allKnown : List ResolvedType → Bool
  | [] => true
  | t :: rest => t.isKnown && ResolvedType.allKnown rest
end

theorem ResolvedType.isKnown_arrayOf (t : ResolvedType) (dims : Nat) :
    (t.arrayOf dims).isKnown = t.isKnown := by
  cases t <;> rfl

/-! ## Section 3: Resolution in a larger catalog -/

section within

variable {c c' : Catalog} {s : Scope}

/-- The root class stays what it is once it is known. -/
theorem Catalog.Within.objectType_eq (h : c.Within c') (hknown : c.objectType.isKnown = true) :
    c'.objectType = c.objectType := by
  unfold Catalog.objectType at hknown ⊢
  cases hget : c.get? objectName with
  | none =>
    rw [hget] at hknown
    cases hknown
  | some t => rw [h objectName t hget]

/-- Only a variable that is not in scope has to do with the catalog: it becomes the root class. -/
theorem Catalog.Within.resolveVariable_eq (h : c.Within c') (name : String)
    (hknown : (c.resolveVariable s name).isKnown = true) :
    c'.resolveVariable s name = c.resolveVariable s name := by
  unfold Catalog.resolveVariable at hknown ⊢
  cases hlookup : s.lookup? name with
  | none =>
    rw [hlookup] at hknown
    exact h.objectType_eq hknown
  | some v => cases v <;> rfl

-- The induction is on the signature. Of the arguments of a class those past its last variable are
-- dropped, so they need not be known; the lemma for arguments speaks of those that are left.
mutual
theorem Catalog.Within.resolveSignature_eq (h : c.Within c') (t : TypeSignature)
    (hknown : (c.resolveSignature s t).isKnown = true) :
    c'.resolveSignature s t = c.resolveSignature s t := by
  match t with
  | .primitive p => rfl
  | .array element =>
    rw [Catalog.resolveSignature, ResolvedType.isKnown_arrayOf] at hknown
    rw [Catalog.resolveSignature, Catalog.resolveSignature, h.resolveSignature_eq element hknown]
  | .typeVariable name => exact h.resolveVariable_eq name hknown
  | .classType name arguments =>
    rw [Catalog.resolveSignature] at hknown ⊢
    rw [Catalog.resolveSignature]
    cases hget : c.get? name with
    | none =>
      rw [hget] at hknown
      cases hknown
    | some known =>
      rw [h name known hget]
      rw [hget] at hknown
      dsimp only at hknown ⊢
      by_cases hempty : arguments.isEmpty
      · rw [if_pos hempty, if_pos hempty]
      · rw [if_neg hempty] at hknown
        rw [if_neg hempty, if_neg hempty]
        have hfilled := h.fillArguments_eq known.declaration.typeVariables arguments hknown
        exact congrArg (ResolvedType.classType known.declaration) hfilled
theorem Catalog.Within.resolveArgument_eq (h : c.Within c') (a : TypeArgument)
    (hknown : (c.resolveArgument s a).isKnown = true) :
    c'.resolveArgument s a = c.resolveArgument s a := by
  match a with
  | .any => rfl
  | .upper bound =>
    rw [Catalog.resolveArgument, Catalog.resolveArgument, h.resolveSignature_eq bound hknown]
  | .lower bound =>
    rw [Catalog.resolveArgument, Catalog.resolveArgument, h.resolveSignature_eq bound hknown]
  | .exactly t => exact h.resolveSignature_eq t hknown
theorem Catalog.Within.fillArguments_eq (h : c.Within c') (typeVariables : List TypeVariable)
    (as : List TypeArgument)
    (hknown : ResolvedType.allKnown
      (fillArguments c.objectType typeVariables (c.resolveArguments s as)) = true) :
    fillArguments c'.objectType typeVariables (c'.resolveArguments s as) =
      fillArguments c.objectType typeVariables (c.resolveArguments s as) := by
  match typeVariables, as with
  | [], _ => rfl
  | v :: typeVariables, [] =>
    -- A missing argument is the root class, as are all after it.
    obtain ⟨hobject, -⟩ := Bool.and_eq_true_iff.1 hknown
    rw [h.objectType_eq hobject]
    rfl
  | v :: typeVariables, a :: as =>
    obtain ⟨ha, hrest⟩ := Bool.and_eq_true_iff.1 hknown
    show c'.resolveArgument s a :: _ = c.resolveArgument s a :: _
    rw [h.resolveArgument_eq a ha]
    exact congrArg (c.resolveArgument s a :: ·) (h.fillArguments_eq typeVariables as hrest)
end

theorem Catalog.Within.resolve_eq (h : c.Within c') (text : String)
    (hknown : (c.resolve s text).isKnown = true) : c'.resolve s text = c.resolve s text := by
  unfold Catalog.resolve at hknown ⊢
  cases hread : readSignature? text with
  | none => rfl
  | some t =>
    rw [hread] at hknown
    exact h.resolveSignature_eq t hknown

end within

/-- What a text is resolved to in some scope without a class that is unknown, it is resolved to in
    every catalog with the same entries and more; and a class type whose supertypes are without one
    has the same supertypes there. -/
theorem Catalog.resolve_within {c c' : Catalog} (h : c.Within c') :
    (∀ s text, (c.resolve s text).isKnown = true → c'.resolve s text = c.resolve s text) ∧
    (∀ t : ClassType, (∀ u ∈ c.supertypes t, u.isKnown = true) →
      c'.supertypes t = c.supertypes t) := by
  refine ⟨fun s text => h.resolve_eq text, ?_⟩
  intro t hknown
  unfold Catalog.supertypes at hknown ⊢
  apply List.map_congr_left
  intro signature hmem
  exact h.resolve_eq signature (hknown _ (List.mem_map_of_mem hmem))

/-- A box of arrays of boxes is known as soon as boxes are, and stays what it is when another class
    is loaded. -/
theorem Catalog.resolve_within_box :
    let root : ClassDeclaration := ⟨⟨"java/lang/Object"⟩, ⟨0⟩, "", [], [], [], [], []⟩
    let box : ClassDeclaration :=
      ⟨⟨"Box"⟩, ⟨0⟩, "", [⟨"T", []⟩], ["Ljava/lang/Object;"], [], [], []⟩
    let leaf : ClassDeclaration := ⟨⟨"Leaf"⟩, ⟨0⟩, "", [], ["LBox;"], [], [], []⟩
    let c := (Catalog.empty.insertDeclaration root).insertDeclaration box
    let c' := c.insertDeclaration leaf
    c.Within c' ∧ (c.resolve .empty "LBox<+[LBox;>;").isKnown = true ∧
      c'.resolve .empty "LBox<+[LBox;>;" = c.resolve .empty "LBox<+[LBox;>;" ∧
      (∀ u ∈ c.supertypes (.raw box), u.isKnown = true) ∧
      c'.supertypes (.raw box) = c.supertypes (.raw box) := by
  intro root box leaf c c'
  have hbox : c.get? "Box" = some (.raw box) := by simp [c, Catalog.get?_insertDeclaration, box]
  have hroot : c.get? "java/lang/Object" = some (.raw root) := by
    simp [c, Catalog.get?_insertDeclaration, box, root]
  have hleaf : c.get? (ClassType.raw leaf).shortSignature = none := by
    have hshort : (ClassType.raw leaf).shortSignature = "Leaf" := by decide
    rw [hshort]
    simp [c, Catalog.get?_insertDeclaration, box, root]
  have hwithin : c.Within c' := by
    show c.Within ([Catalog.Step.insertDeclaration leaf].foldl Catalog.Step.run c)
    apply Catalog.within_foldl_run
    intro t ht u hu
    rw [List.mem_singleton.1 ht, hleaf] at hu
    cases hu
  have hknown : (c.resolve .empty "LBox<+[LBox;>;").isKnown = true := by
    have hread : readSignature? "LBox<+[LBox;>;" =
        some (.classType "Box" [.upper (.array (.classType "Box" []))]) :=
      readSignature?_eq_some (by cbv)
    unfold Catalog.resolve
    rw [hread]
    simp only [Catalog.resolveSignature, Catalog.resolveArguments, Catalog.resolveArgument, hbox]
    rfl
  have hsuper : ∀ u ∈ c.supertypes (.raw box), u.isKnown = true := by
    have hread : readSignature? "Ljava/lang/Object;" = some (.classType "java/lang/Object" []) :=
      readSignature?_eq_some (by cbv)
    intro u hu
    have hu : u = c.resolveIn (.raw box) [] "Ljava/lang/Object;" := List.mem_singleton.1 hu
    rw [hu]
    unfold Catalog.resolveIn Catalog.resolve
    rw [hread]
    simp only [Catalog.resolveSignature, hroot]
    rfl
  obtain ⟨hresolve, hsupers⟩ := Catalog.resolve_within hwithin
  exact ⟨hwithin, hknown, hresolve _ _ hknown, hsuper, hsupers _ hsuper⟩

end TypeCatalog
