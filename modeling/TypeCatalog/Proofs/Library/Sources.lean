import Mathlib.Data.List.Forall2
import TypeCatalog.Library.Load
import TypeCatalog.Proofs.Outcome
import TypeCatalog.Storage.Disk

/-! # Documentation is local to a class

    The sources of a library are read once for every top-level class, the ones that are there and
    can be parsed are kept together, and all classes are looked up in what was kept. What a class
    gets depends on the class and on one file nevertheless, the one that is named for the top-level
    class around it: looking up a top-level class among all that was read gives what its own file
    gives by itself, since the name was asked for and nothing else is kept under it. So the other
    classes, their order and their sources do not matter. -/

set_option autoImplicit false

namespace TypeCatalog

/-! ## Section 1: Storage that answers -/

section storage

variable {σ : Type}

/-- What is read is the content of the path at that time, and reading changes nothing. -/
def Storage.Answers (s : Storage (StateM σ))
    (content : σ → String → Except FileFault (List UInt8)) : Prop :=
  ∀ path state, (s.read path).run state = (content state path, state)

theorem Disk.answers_storage : Disk.storage.Answers Disk.contentAt := fun _ _ => rfl

end storage

namespace Library

/-! ## Section 2: The file of a class -/

/-- A class is a top-level one, or nested in it at any depth. -/
def IsTopLevelOf (top name : String) : Prop :=
  '$' ∉ top.toList ∧ (name = top ∨ ∃ nested, name = top ++ "$" ++ nested)

/-- The file for the source of a class is below a folder and named for the top-level class.
    Separators at the end of the folder do not count. -/
def IsSourceOf (base name path : String) : Prop :=
  ∃ folder separators top, base = folder ++ separators ∧ folder.toList.getLast? ≠ some '/' ∧
    (∀ c ∈ separators.toList, c = '/') ∧ IsTopLevelOf top name ∧
    path = folder ++ "/" ++ top ++ ".java"

theorem isTopLevelOf_topLevelName (name : String) : IsTopLevelOf (topLevelName name) name := by
  refine ⟨?_, ?_⟩
  · rw [topLevelName, String.toList_ofList]
    exact Text.notMem_beforeFirst '$' name.toList
  · rcases Text.beforeFirst_cases '$' name.toList with hwhole | ⟨nested, hname⟩
    · exact .inl (by rw [topLevelName, ← hwhole, String.ofList_toList])
    · refine .inr ⟨String.ofList nested, String.toList_inj.1 ?_⟩
      simp only [topLevelName, String.toList_append, String.toList_ofList, List.append_assoc]
      exact hname

theorem IsTopLevelOf.eq {top name : String} (h : IsTopLevelOf top name) :
    top = topLevelName name := by
  obtain ⟨htop, rfl | ⟨nested, rfl⟩⟩ := h
  · exact (topLevelName_of_notMem htop).symm
  · exact (topLevelName_nested htop nested).symm

/-- There is one file for the source of a class. -/
theorem isSourceOf_iff {base name path : String} :
    IsSourceOf base name path ↔ path = sourcePath base (topLevelName name) := by
  constructor
  · rintro ⟨folder, separators, top, rfl, hfolder, hseparators, htop, rfl⟩
    rw [sourcePath, Path.trimSeparators_append hfolder hseparators, ← htop.eq]
  · rintro rfl
    obtain ⟨hfolder, separators, hbase, hseparators⟩ := Path.exists_trimSeparators_append base
    exact ⟨_, separators, _, hbase, hfolder, hseparators, isTopLevelOf_topLevelName name, rfl⟩

/-! ## Section 3: The source of one class -/

section source

variable (content : String → Except FileFault (List UInt8)) (base : String)

/-- A file is there, can be parsed, and declares a type of a name. -/
def Declares (path name : String) (t : Source.TypeUnit) : Prop :=
  ∃ bytes u, content path = .ok bytes ∧
    Source.SourceUnit.parse (String.ofList (Text.Utf8.decodeLossy bytes)) = .ok u ∧
    u.findType? name = some t

/-- A class is put together with what its file declares for it, and is left as it is if there is no
    such declaration. -/
inductive Documents (c : CompiledClass) : CompiledClass → Prop where
  | declared {path : String} {t : Source.TypeUnit} (source : IsSourceOf base c.name path)
      (declares : Declares content path c.name t) : Documents c (t.annotate c)
  | undeclared {path : String} (source : IsSourceOf base c.name path)
      (declares : ∀ t, ¬Declares content path c.name t) : Documents c c

/-- What the source of a top-level class declares, if the file is there and can be parsed. -/
def sourceAt? (name : String) : Option Source.SourceUnit :=
  (content (sourcePath base name)).toOption.bind readSource?

/-- A class with what the source of its top-level class says about it. It is left as it is if that
    file is missing, cannot be parsed or does not declare the type. -/
def documented (c : CompiledClass) : CompiledClass :=
  match (sourceAt? content base (topLevelName c.name)).bind fun u => u.findType? c.name with
  | some t => t.annotate c
  | none => c

/-- What is kept of the sources of some top-level classes. -/
def sourcesAt (names : List String) : Sources :=
  names.filterMap fun name => (sourceAt? content base name).map fun u => (name, u)

variable {content base}

theorem declares_iff {name : String} {t : Source.TypeUnit} :
    Declares content (sourcePath base (topLevelName name)) name t ↔
      ((sourceAt? content base (topLevelName name)).bind fun u => u.findType? name) = some t := by
  unfold sourceAt? readSource? Declares
  simp only [Option.bind_eq_some_iff, toOption_eq_some]
  constructor
  · rintro ⟨bytes, u, hbytes, hparse, hfind⟩
    exact ⟨u, ⟨bytes, hbytes, hparse⟩, hfind⟩
  · rintro ⟨u, ⟨bytes, hbytes, hparse⟩, hfind⟩
    exact ⟨bytes, u, hbytes, hparse, hfind⟩

/-- What a class is documented as is determined. -/
theorem documents_iff {c c' : CompiledClass} :
    Documents content base c c' ↔ documented content base c = c' := by
  unfold documented
  constructor
  · rintro (⟨hsource, hdeclares⟩ | ⟨hsource, hdeclares⟩)
    · rw [isSourceOf_iff.1 hsource, declares_iff] at hdeclares
      rw [hdeclares]
    · simp only [isSourceOf_iff.1 hsource, declares_iff] at hdeclares
      rw [Option.eq_none_iff_forall_ne_some.2 hdeclares]
  · rintro rfl
    split
    · next t ht => exact .declared (isSourceOf_iff.2 rfl) (declares_iff.2 ht)
    · next hnone =>
      refine .undeclared (isSourceOf_iff.2 rfl) fun t ht => ?_
      rw [declares_iff, hnone] at ht
      cases ht

/-- Among all that was kept, a name that was asked for has what its own file gives. -/
theorem lookup_sourcesAt (name : String) (names : List String) :
    List.lookup name (sourcesAt content base names) =
      if name ∈ names then sourceAt? content base name else none := by
  unfold sourcesAt
  induction names with
  | nil => rfl
  | cons other rest ih =>
    rw [List.filterMap_cons]
    by_cases heq : name = other
    · subst heq
      rw [if_pos List.mem_cons_self]
      cases hown : sourceAt? content base name with
      | some u => exact List.lookup_cons_self
      | none =>
        -- A name may be asked for again, but its file is the same.
        rw [hown, ite_self] at ih
        exact ih
    · have hmem : name ∈ other :: rest ↔ name ∈ rest := List.mem_cons.trans (or_iff_right heq)
      simp only [hmem]
      cases sourceAt? content base other with
      | some u =>
        rw [← ih, Option.map_some, List.lookup_cons, beq_eq_false_iff_ne.2 heq]
      | none => exact ih

theorem annotate_sourcesAt {c : CompiledClass} {names : List String}
    (h : topLevelName c.name ∈ names) :
    annotate (sourcesAt content base names) c = documented content base c := by
  have hown : List.lookup (topLevelName c.name) (sourcesAt content base names) =
      sourceAt? content base (topLevelName c.name) :=
    (lookup_sourcesAt _ _).trans (if_pos h)
  unfold annotate documented
  cases hfound : (sourceAt? content base (topLevelName c.name)).bind
    fun u => u.findType? c.name with
  | some t => simp only [hown, hfound]
  | none => simp only [hown, hfound]

theorem topLevelName_mem {c : CompiledClass} {classes : List CompiledClass} (h : c ∈ classes) :
    topLevelName c.name ∈ topLevelNames classes :=
  List.mem_eraseDups.2 (List.mem_map.2 ⟨c, h, rfl⟩)

end source

/-! ## Section 4: Runs -/

section runs

variable {σ : Type} {s : Storage (StateM σ)}
  {content : σ → String → Except FileFault (List UInt8)}

theorem run_readSources (hs : s.Answers content) (base : String) (names : List String)
    (state : σ) :
    (readSources s base names).run state = (sourcesAt (content state) base names, state) := by
  unfold sourcesAt sourceAt?
  induction names with
  | nil => rfl
  | cons name rest ih =>
    unfold readSources
    rw [StateT.run_bind, hs]
    show StateT.run (readSources s base rest >>= _) state = _
    rw [StateT.run_bind, ih, List.filterMap_cons]
    cases (content state (sourcePath base name)).toOption.bind readSource? with
    | some u => rfl
    | none => rfl

/-- Every class gets what its own source says, in place. -/
theorem run_addSources (hs : s.Answers content) (base : String) (classes : List CompiledClass)
    (state : σ) :
    (addSources s (some base) classes).run state =
      (classes.map (documented (content state) base), state) := by
  have hannotate : classes.map (annotate (sourcesAt (content state) base (topLevelNames classes))) =
      classes.map (documented (content state) base) :=
    List.map_congr_left fun c hc => annotate_sourcesAt (topLevelName_mem hc)
  unfold addSources
  rw [StateT.run_bind, run_readSources hs, ← hannotate]
  rfl

/-- Documenting is local to each class. The classes stay in their places, and each is put together
    with what the file of its top-level class declares for it, or left as it is. So in two runs that
    agree on a class and on the content of that one file, or can both not read it, the class comes
    out the same, whatever else there is among the classes and below the folders. -/
theorem addSources_local (hs : s.Answers content) :
    (∀ base classes state, ∃ found, (addSources s (some base) classes).run state = (found, state) ∧
      ∀ others, List.Forall₂ (Documents (content state) base) classes others ↔ others = found) ∧
    ∀ base base' classes classes' state state' path path' (i j : Nat) (c : CompiledClass),
      classes[i]? = some c → classes'[j]? = some c →
      IsSourceOf base c.name path → IsSourceOf base' c.name path' →
      (content state path).toOption = (content state' path').toOption →
      ((addSources s (some base) classes).run state).1[i]? =
        ((addSources s (some base') classes').run state').1[j]? := by
  refine ⟨fun base classes state => ⟨_, run_addSources hs base classes state, ?_⟩, ?_⟩
  · intro others
    -- What a class is put together to is a function of it, so there is one such list.
    have hdocuments : Documents (content state) base =
        fun c c' => documented (content state) base c = c' := by
      funext c c'
      exact propext documents_iff
    rw [hdocuments, ← List.forall₂_map_left_iff (R := Eq), List.forall₂_eq_eq_eq]
    exact eq_comm
  · intro base base' classes classes' state state' path path' i j c hi hj hpath hpath' hsame
    rw [isSourceOf_iff.1 hpath, isSourceOf_iff.1 hpath'] at hsame
    -- Of either state no more than the content of that file is used.
    have hown : documented (content state) base c = documented (content state') base' c := by
      unfold documented sourceAt?
      rw [hsame]
    rw [run_addSources hs, run_addSources hs]
    simp only [List.getElem?_map, hi, hj, Option.map_some, hown]

end runs

/-- A folder with sources in it. -/
def folderOf (folder : String) (sources : List (String × String)) : Disk :=
  ⟨sources.map fun (name, text) =>
    ([folder.toList, name.toList ++ ".java".toList], Text.Utf8.encode text.toList), []⟩

/-- A class of which nothing is known but its name. -/
def bareClass (name : String) : CompiledClass := { (default : CompiledClass) with name }

/-- A nested class is described by the source of the class around it, in either folder: before a
    class without a source, and after one whose source cannot be parsed. -/
theorem addSources_local_beside_broken :
    let described := ("A", "/** Outer. */ class A \x7b /** Inner. */ class B \x7b\x7d \x7d")
    let alone := (addSources Disk.storage (some "src") [bareClass "A$B", bareClass "C"]).run
      (folderOf "src" [described])
    let beside := (addSources Disk.storage (some "lib/")
      [bareClass "C$D", bareClass "A", bareClass "A$B"]).run
      (folderOf "lib" [("C", "class \x7b"), described])
    alone.1[0]? = beside.1[2]? ∧ alone.1.map CompiledClass.docs = ["Inner.", ""] ∧
      beside.1.map CompiledClass.docs = ["", "Outer.", "Inner."] := by
  intro described alone beside
  have htop : IsTopLevelOf "A" (bareClass "A$B").name :=
    ⟨by decide +kernel, .inr ⟨"B", rfl⟩⟩
  have hsource : IsSourceOf "src" (bareClass "A$B").name "src/A.java" :=
    ⟨"src", "", "A", rfl, by decide +kernel, by simp, htop, rfl⟩
  have hsource' : IsSourceOf "lib/" (bareClass "A$B").name "lib/A.java" :=
    ⟨"lib", "/", "A", rfl, by decide +kernel, by simp, htop, rfl⟩
  refine ⟨?_, by decide +kernel, by decide +kernel⟩
  exact (addSources_local Disk.answers_storage).2 "src" "lib/" _ _ _ _ _ _ 0 2 (bareClass "A$B")
    rfl rfl hsource hsource' (by decide +kernel)

end Library

end TypeCatalog
