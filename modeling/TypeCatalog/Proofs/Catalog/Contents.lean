import TypeCatalog.Proofs.Catalog.Reachable
import TypeCatalog.Proofs.Outcome

/-! # What a catalog holds

    Whatever steps load a catalog, in the end it is a list of class types put in one after the
    other. What it holds under a key is the last of them with that short signature.

    * `Catalog.Step.run_eq`: what one step does is to put in the class types that it produces.
    * `Catalog.get?_foldl_insert`: what a run of insertions leaves under each key.
    * `Catalog.extend_eq`: a batch puts in the classes that can be read, and counts them.
    * `Catalog.get?_extend_perm`: a batch of classes with different names can be loaded in any
      order. -/

set_option autoImplicit false

namespace TypeCatalog

/-! ## Section 1: Steps -/

/-- Whether there is a declaration of a compiled class. -/
def CompiledClass.isReadable (c : CompiledClass) : Bool := (ClassDeclaration.ofCompiled c).isOk

/-- The class type that a compiled class is put in as. -/
def CompiledClass.classType? (c : CompiledClass) : Option ClassType :=
  (ClassDeclaration.ofCompiled c).toOption.map ClassType.raw

namespace Catalog

/-- A step in which a catalog is loaded. -/
inductive Step where
  /-- A class type is put in. -/
  | insert (t : ClassType)
  /-- A declared class is put in. -/
  | insertDeclaration (d : ClassDeclaration)
  /-- Compiled classes are put in, as far as they can be read. -/
  | extend (classes : List CompiledClass)

/-- The catalog after a step. -/
def Step.run (c : Catalog) : Step → Catalog
  | .insert t => c.insert t
  | .insertDeclaration d => c.insertDeclaration d
  | .extend classes => (c.extend classes).1

/-- The class types that a step puts in, in order. -/
def Step.produced : Step → List ClassType
  | .insert t => [t]
  | .insertDeclaration d => [.raw d]
  | .extend classes => classes.filterMap CompiledClass.classType?

/-- The catalog that steps make out of the empty one. -/
def after (steps : List Step) : Catalog := steps.foldl Step.run empty

theorem reachable_foldl_run {c : Catalog} (h : c.Reachable) (steps : List Step) :
    (steps.foldl Step.run c).Reachable := by
  induction steps generalizing c with
  | nil => exact h
  | cons step steps ih =>
    apply ih
    cases step with
    | insert t => exact h.insert t
    | insertDeclaration d => exact h.insertDeclaration d
    | extend classes => exact h.extend classes

theorem reachable_after (steps : List Step) : (after steps).Reachable :=
  reachable_foldl_run .empty steps

/-! ## Section 2: Batches -/

/-- A compiled class that can be read is put in and counted; another one changes nothing. -/
theorem addCompiled_cases (added : Catalog × Nat) (x : CompiledClass) :
    (∃ t, x.classType? = some t ∧ x.isReadable = true ∧ t.shortSignature = x.name ∧
      addCompiled added x = (added.1.insert t, added.2 + 1)) ∨
    (x.classType? = none ∧ x.isReadable = false ∧ addCompiled added x = added) := by
  unfold CompiledClass.classType? CompiledClass.isReadable addCompiled
  cases h : ClassDeclaration.ofCompiled x with
  | error e => exact .inr ⟨rfl, rfl, rfl⟩
  | ok d =>
    refine .inl ⟨.raw d, rfl, rfl, ?_, rfl⟩
    have hname : d.name.short = x.name := by
      unfold ClassDeclaration.ofCompiled at h
      obtain ⟨generic, -, h⟩ := bind_eq_ok.1 h
      obtain ⟨found, -, h⟩ := bind_eq_ok.1 h
      cases h
      rfl
    rw [← hname, ← String.toList_inj]
    simp [ClassType.shortSignature, ClassType.raw, ResolvedType.signatures, bracketed]

theorem foldl_addCompiled_eq (added : Catalog × Nat) (classes : List CompiledClass) :
    classes.foldl addCompiled added =
      ((classes.filterMap CompiledClass.classType?).foldl insert added.1,
        added.2 + classes.countP CompiledClass.isReadable) := by
  induction classes generalizing added with
  | nil => rfl
  | cons x classes ih =>
    rw [List.foldl_cons, ih]
    rcases addCompiled_cases added x with ⟨t, htype, hreadable, -, hadd⟩ | ⟨htype, hreadable, hadd⟩
    · rw [hadd, List.filterMap_cons_some htype, List.foldl_cons,
        List.countP_cons_of_pos hreadable]
      simp only [Prod.mk.injEq, true_and]
      omega
    · rw [hadd, List.filterMap_cons_none htype, List.countP_cons_of_neg (by simp [hreadable])]

/-- A batch puts in the classes that can be read, one after the other, and counts them. -/
theorem extend_eq (c : Catalog) (classes : List CompiledClass) :
    c.extend classes =
      ((classes.filterMap CompiledClass.classType?).foldl insert c,
        classes.countP CompiledClass.isReadable) := by
  rw [extend, foldl_addCompiled_eq, Nat.zero_add]

/-- Two batches one after the other are one batch. -/
theorem extend_append (c : Catalog) (xs ys : List CompiledClass) :
    c.extend (xs ++ ys) =
      (((c.extend xs).1.extend ys).1, (c.extend xs).2 + ((c.extend xs).1.extend ys).2) := by
  simp only [extend_eq, List.filterMap_append, List.foldl_append, List.countP_append]

/-- A class that cannot be read might as well not be there. -/
theorem extend_skip (c : Catalog) (xs ys : List CompiledClass) {x : CompiledClass}
    {e : SignatureError} (hx : ClassDeclaration.ofCompiled x = .error e) :
    c.extend (xs ++ x :: ys) = c.extend (xs ++ ys) := by
  have htype : x.classType? = none := by
    rw [CompiledClass.classType?, hx]
    rfl
  have hreadable : ¬x.isReadable = true := by
    rw [CompiledClass.isReadable, hx]
    exact Bool.false_ne_true
  simp only [extend_eq, List.filterMap_append, List.countP_append,
    List.filterMap_cons_none htype, List.countP_cons_of_neg hreadable]

/-! ## Section 3: The last insertion under a key -/

/-- What one step does is to put in what it produces. -/
theorem Step.run_eq (c : Catalog) (step : Step) :
    step.run c = step.produced.foldl Catalog.insert c := by
  cases step with
  | insert t => rfl
  | insertDeclaration d => rfl
  | extend classes =>
    show (c.extend classes).1 = _
    rw [extend_eq]
    rfl

theorem foldl_run_eq (c : Catalog) (steps : List Step) :
    steps.foldl Step.run c = (steps.flatMap Step.produced).foldl insert c := by
  induction steps generalizing c with
  | nil => rfl
  | cons step steps ih =>
    rw [List.foldl_cons, ih, Step.run_eq, List.flatMap_cons, List.foldl_append]

/-- After insertions a key has the last class type that was put under it, or what it had. -/
theorem get?_foldl_insert (c : Catalog) (ts : List ClassType) (key : String) :
    (ts.foldl insert c).get? key =
      (ts.reverse.find? fun t => t.shortSignature = key).or (c.get? key) := by
  induction ts generalizing c with
  | nil => rfl
  | cons t ts ih =>
    rw [List.foldl_cons, ih, get?_insert, List.reverse_cons, List.find?_append]
    by_cases hkey : t.shortSignature = key
    · simp [hkey]
    · simp [hkey]

/-- The last class type of a list with the short signature `key`. -/
theorem find?_reverse_eq_some_iff {ts : List ClassType} {key : String} {t : ClassType} :
    (ts.reverse.find? fun u => u.shortSignature = key) = some t ↔
      t.shortSignature = key ∧ ∃ earlier later, ts = earlier ++ t :: later ∧
        ∀ u ∈ later, u.shortSignature ≠ key := by
  rw [List.find?_eq_some_iff_append]
  constructor
  · intro ⟨hkey, before, behind, hsplit, hother⟩
    refine ⟨by simpa using hkey, behind.reverse, before.reverse, ?_, ?_⟩
    · rw [← List.reverse_reverse ts, hsplit]
      simp
    · intro u hu
      simpa using hother u (List.mem_reverse.1 hu)
  · intro ⟨hkey, earlier, later, hsplit, hother⟩
    refine ⟨by simpa using hkey, later.reverse, earlier.reverse, ?_, ?_⟩
    · rw [hsplit]
      simp
    · intro u hu
      simpa using hother u (List.mem_reverse.1 hu)

theorem get?_after_eq_some_iff {steps : List Step} {key : String} {t : ClassType} :
    (after steps).get? key = some t ↔
      t.shortSignature = key ∧
        ∃ earlier later, steps.flatMap Step.produced = earlier ++ t :: later ∧
          ∀ u ∈ later, u.shortSignature ≠ key := by
  rw [after, foldl_run_eq, get?_foldl_insert, get?_empty, Option.or_none,
    find?_reverse_eq_some_iff]

/-! ## Section 4: The order of a batch -/

/-- Each class type of a batch has the name of the class that it is made of. -/
theorem map_shortSignature_sublist (xs : List CompiledClass) :
    ((xs.filterMap CompiledClass.classType?).map ClassType.shortSignature).Sublist
      (xs.map CompiledClass.name) := by
  induction xs with
  | nil => exact .slnil
  | cons x xs ih =>
    rcases addCompiled_cases (empty, 0) x with ⟨t, htype, -, hname, -⟩ | ⟨htype, -, -⟩
    · rw [List.filterMap_cons_some htype, List.map_cons, List.map_cons, hname]
      exact ih.cons_cons x.name
    · rw [List.filterMap_cons_none htype, List.map_cons]
      exact ih.cons x.name

/-- Where no two class types share a short signature, the last one with it is the only one. -/
theorem find?_reverse_eq_some_iff_mem {ts : List ClassType}
    (hdistinct : (ts.map ClassType.shortSignature).Nodup) {key : String} {t : ClassType} :
    (ts.reverse.find? fun u => u.shortSignature = key) = some t ↔
      t ∈ ts ∧ t.shortSignature = key := by
  rw [find?_reverse_eq_some_iff]
  constructor
  · intro ⟨hkey, earlier, later, hsplit, _⟩
    rw [hsplit]
    exact ⟨by simp, hkey⟩
  · intro ⟨hmem, hkey⟩
    obtain ⟨earlier, later, hsplit⟩ := List.append_of_mem hmem
    refine ⟨hkey, earlier, later, hsplit, ?_⟩
    intro u hu hsame
    rw [hsplit, List.map_append, List.map_cons] at hdistinct
    have hnotin := (List.nodup_cons.1 (List.nodup_append.1 hdistinct).2.1).1
    exact hnotin (List.mem_map.2 ⟨u, hu, hsame.trans hkey.symm⟩)

/-- Classes with different names can be loaded in any order. -/
theorem get?_extend_perm (c : Catalog) {xs ys : List CompiledClass} (hperm : xs.Perm ys)
    (hdistinct : (xs.map CompiledClass.name).Nodup) (key : String) :
    (c.extend xs).1.get? key = (c.extend ys).1.get? key := by
  have hdistinct' : (ys.map CompiledClass.name).Nodup := (hperm.map _).nodup_iff.1 hdistinct
  have hproduced := hperm.filterMap CompiledClass.classType?
  simp only [extend_eq, get?_foldl_insert]
  congr 1
  ext t
  rw [find?_reverse_eq_some_iff_mem (hdistinct.sublist (map_shortSignature_sublist xs)),
    find?_reverse_eq_some_iff_mem (hdistinct'.sublist (map_shortSignature_sublist ys)),
    hproduced.mem_iff]

/-- Catalogs that hold the same under every key have the same entries in the same order. -/
theorem toList_eq_of_get?_eq {c c' : Catalog} (h : ∀ key, c.get? key = c'.get? key) :
    c.entries.toList = c'.entries.toList :=
  (Std.TreeMap.Equiv.of_forall_constGet?_eq h).toList_eq

/-! ## Section 5: Every run of steps -/

/-- After any steps from the empty catalog, each class type stands under its own short signature,
    and under each short signature stands the class type produced last with it. A batch counts the
    classes that can be read; one that cannot be read might as well not be there; two batches are
    one after the other what they are as one; and a batch of classes with different names gives the
    same entries in every order. -/
theorem after_holds_last (steps : List Step) :
    (∀ key t, (after steps).get? key = some t → t.shortSignature = key) ∧
    (∀ key t, (after steps).get? key = some t ↔
      t.shortSignature = key ∧
        ∃ earlier later, steps.flatMap Step.produced = earlier ++ t :: later ∧
          ∀ u ∈ later, u.shortSignature ≠ key) ∧
    (∀ xs, ((after steps).extend xs).2 = xs.countP CompiledClass.isReadable) ∧
    (∀ xs x ys e, ClassDeclaration.ofCompiled x = .error e →
      (after steps).extend (xs ++ x :: ys) = (after steps).extend (xs ++ ys)) ∧
    (∀ xs ys, (after steps).extend (xs ++ ys) =
      ((((after steps).extend xs).1.extend ys).1,
        ((after steps).extend xs).2 + (((after steps).extend xs).1.extend ys).2)) ∧
    (∀ xs ys, xs.Perm ys → (xs.map CompiledClass.name).Nodup →
      (∀ key, ((after steps).extend xs).1.get? key = ((after steps).extend ys).1.get? key) ∧
      ((after steps).extend xs).1.entries.toList = ((after steps).extend ys).1.entries.toList ∧
      ((after steps).extend xs).2 = ((after steps).extend ys).2) := by
  refine ⟨?_, ?_, ?_, ?_, ?_, ?_⟩
  · exact (reachable_after steps).keyed
  · intro key t
    exact get?_after_eq_some_iff
  · intro xs
    rw [extend_eq]
  · intro xs x ys e hx
    exact extend_skip _ xs ys hx
  · intro xs ys
    exact extend_append _ xs ys
  · intro xs ys hperm hdistinct
    have hget := get?_extend_perm (after steps) hperm hdistinct
    refine ⟨hget, toList_eq_of_get?_eq hget, ?_⟩
    rw [extend_eq, extend_eq]
    exact hperm.countP_eq CompiledClass.isReadable

end Catalog

end TypeCatalog
