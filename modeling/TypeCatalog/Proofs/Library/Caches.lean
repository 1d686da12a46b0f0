import TypeCatalog.Library.Load
import TypeCatalog.Proofs.Cache.RoundTrip
import TypeCatalog.Proofs.ClassFile.Image
import TypeCatalog.Proofs.Json.Controls
import TypeCatalog.Proofs.Path
import TypeCatalog.Proofs.Storage.Disk
import TypeCatalog.Settings.Rules

/-! # Loading what was built

    The cache of a library is loaded as the catalog that it was built for, whatever the library
    holds and its sources say. To build a cache is to write one document, and a file is read as one
    document unless its path ends with `.zip`. Such a file is read as an archive, which a document
    never is: an archive has an end record, the mark of that record has control characters, and no
    document has any. -/

set_option autoImplicit false

namespace TypeCatalog

/-! ## Section 1: Programs on a disk -/

section programs

variable {α β : Type} {d d' : Disk}

/-- Two steps that went well are one that did and another one after it. -/
theorem run_bind_eq_ok {x : ExceptT Failure (StateM Disk) α}
    {f : α → ExceptT Failure (StateM Disk) β} {b : β}
    (h : (x >>= f).run.run d = (.ok b, d')) :
    ∃ a between, x.run.run d = (.ok a, between) ∧ (f a).run.run between = (.ok b, d') := by
  rw [ExceptT.run_bind, StateT.run_bind] at h
  rcases hx : x.run.run d with ⟨found, between⟩
  rw [hx] at h
  cases found with
  | ok a => exact ⟨a, between, rfl, h⟩
  | error failure => cases h

/-- After a step that went well comes the next one. -/
theorem run_bind_of_eq_ok {x : ExceptT Failure (StateM Disk) α}
    {f : α → ExceptT Failure (StateM Disk) β} {a : α} (h : x.run.run d = (.ok a, d')) :
    (x >>= f).run.run d = (f a).run.run d' := by
  rw [ExceptT.run_bind, StateT.run_bind, h]
  rfl

/-- A run goes well where something can be said of what it gives. -/
theorem exists_run_of_toOption {x : ExceptT Failure (StateM Disk) α} {view : α → β} {b : β}
    (h : (x.run.run d).1.toOption.map view = some b) :
    ∃ a d', x.run.run d = (.ok a, d') ∧ view a = b := by
  rcases hx : x.run.run d with ⟨failure | a, d'⟩
  · rw [hx] at h
    cases h
  · rw [hx] at h
    exact ⟨a, d', rfl, Option.some.inj h⟩

theorem run_load (path : String) :
    (Disk.storage.load path).run.run d = ((d.contentAt path).mapError .file, d) := by
  have hread : (liftM (Disk.storage.read path) : ExceptT Failure (StateM Disk) _).run.run d =
      (.ok (d.contentAt path), d) := rfl
  unfold Storage.load
  rw [ExceptT.run_bind, StateT.run_bind, hread]
  cases d.contentAt path with
  | ok bytes => rfl
  | error fault => rfl

theorem run_save (path : String) (bytes : List UInt8) :
    (Disk.storage.save path bytes).run.run d =
      ((d.store path bytes).1.mapError .file, (d.store path bytes).2) := by
  have hwrite : (liftM (Disk.storage.write path bytes) : ExceptT Failure (StateM Disk) _).run.run
      d = (.ok (d.store path bytes).1, (d.store path bytes).2) := rfl
  unfold Storage.save
  rw [ExceptT.run_bind, StateT.run_bind, hwrite]
  cases (d.store path bytes).1 with
  | ok _ => rfl
  | error fault => rfl

/-- What was saved was stored. -/
theorem store_of_run_save {path : String} {bytes : List UInt8}
    (h : (Disk.storage.save path bytes).run.run d = (.ok (), d')) :
    d.store path bytes = (.ok (), d') := by
  rw [run_save, Prod.mk.injEq, mapError_eq_ok] at h
  exact Prod.ext h.1 h.2

end programs

namespace Library

/-! ## Section 2: Documents -/

theorem plain_document (classes : List CompiledClass) :
    (Json.array (classes.map Cache.ofClass)).Plain Json.depthLimit :=
  Cache.codes_class.list.plain classes (by decide)

/-- A document by itself is the classes that it was written for. -/
theorem classes_of_document (classes : List CompiledClass) :
    [documentOf classes].mapM classesOfDocument = .ok [classes] := by
  have hread : Json.ofBytes? (documentOf classes) = some (.array (classes.map Cache.ofClass)) :=
    Json.ofBytes?_compact (plain_document classes)
  have hback : (classes.map Cache.ofClass).mapM Cache.toClass? = some classes :=
    Cache.codes_class.mapM_map classes
  have hclasses : classesOfDocument (documentOf classes) = .ok classes := by
    rw [classesOfDocument, hread]
    simp only [hback]
  rw [List.mapM_cons, hclasses]
  rfl

theorem le_toNat_of_mem_document {classes : List CompiledClass} {b : UInt8}
    (h : b ∈ documentOf classes) : 0x20 ≤ b.toNat :=
  (Json.isPrinted_compact _ (plain_document classes)).le_toNat_of_mem_encode h

end Library

/-! ## Section 3: Archives -/

namespace Archive

theorem mem_of_standsAt {data : Array UInt8} {offset : Nat} {mark : List UInt8}
    (h : standsAt data offset mark = true) : ∀ b ∈ mark, b ∈ data := by
  induction mark generalizing offset with
  | nil => exact nofun
  | cons b mark ih =>
    rw [standsAt, Bool.and_eq_true, beq_iff_eq] at h
    intro x hx
    rcases List.mem_cons.1 hx with rfl | hx
    · exact Array.mem_of_getElem? h.1
    · exact ih h.2 x hx

/-- No end record is where no byte is the third one of its mark. -/
theorem readBefore_eq_none {data : Array UInt8} (h : 5 ∉ data) (place : Nat) :
    readBefore data place = none := by
  induction place with
  | zero => rfl
  | succ place ih =>
    have hmark : standsAt data place endMark = false := by
      rw [Bool.eq_false_iff]
      intro hstands
      exact h (mem_of_standsAt hstands 5 (by decide))
    have hplace : placeAt data place = none := by
      rw [placeAt, hmark]
      rfl
    rw [readBefore, hplace]
    exact ih

theorem read_eq_none {bytes : List UInt8} (h : 5 ∉ bytes) : read bytes = none :=
  readBefore_eq_none (by rwa [List.mem_toArray]) _

end Archive

namespace Library

/-! ## Section 4: Caches -/

/-- A document is no zipped cache. -/
theorem openArchive_document (classes : List CompiledClass) :
    openArchive (documentOf classes) = .error .archive := by
  have hnone : Archive.read (documentOf classes) = none := by
    refine Archive.read_eq_none fun hmem => ?_
    exact absurd (le_toNat_of_mem_document hmem) (by decide)
  rw [openArchive, hnone]

/-- The classes of a file that holds one document, by the path of the file. -/
theorem cachedClasses_document (path : String) (classes : List CompiledClass) :
    cachedClasses path (documentOf classes) none =
      if Path.hasSuffix ".zip" path then .error .archive else .ok classes := by
  unfold cachedClasses documentsAt
  by_cases hzip : Path.hasSuffix ".zip" path = true
  · rw [if_pos hzip, if_pos hzip, zippedDocuments, openArchive_document]
    rfl
  · rw [if_neg hzip, if_neg hzip]
    show ([documentOf classes].mapM classesOfDocument).bind _ = _
    rw [classes_of_document]
    exact congrArg Except.ok (List.append_nil classes)

section disk

variable {d d' : Disk} {library cache : String} {sources : Option String} {found : Catalog}

/-- What is built is written as one document, of the classes that the catalog is of. -/
theorem exists_document_of_build
    (h : (build Disk.storage library sources cache).run.run d = (.ok found, d')) :
    ∃ classes, d'.contentAt cache = .ok (documentOf classes) ∧ found = catalogOf classes := by
  unfold build at h
  obtain ⟨bytes, d1, -, h⟩ := run_bind_eq_ok h
  obtain ⟨bare, d2, -, h⟩ := run_bind_eq_ok h
  obtain ⟨classes, d3, -, h⟩ := run_bind_eq_ok h
  obtain ⟨_, d4, hsave, h⟩ := run_bind_eq_ok h
  cases h
  exact ⟨classes, Disk.contentAt_of_store (store_of_run_save hsave), rfl⟩

/-- What is loaded from a file is loaded from what it holds. -/
theorem run_loadCache {bytes : List UInt8} (h : d.contentAt cache = .ok bytes)
    (libraries : Option (List String)) (c : Catalog) :
    (Library.load Disk.storage cache libraries c).run.run d =
      ((cachedClasses cache bytes libraries).map fun classes => (c.extend classes).1, d) := by
  have hrun : (Library.load Disk.storage cache libraries c).run.run d =
      (do
        let classes ← (liftM (cachedClasses cache bytes libraries) :
          ExceptT Failure (StateM Disk) (List CompiledClass))
        return (c.extend classes).1).run.run d := by
    unfold Library.load
    rw [ExceptT.run_bind, StateT.run_bind, run_load, h]
    rfl
  rw [hrun]
  cases cachedClasses cache bytes libraries with
  | ok classes => rfl
  | error failure => rfl

/-- What loading gives where a cache was just built. -/
theorem run_load_of_build
    (h : (build Disk.storage library sources cache).run.run d = (.ok found, d')) :
    (Library.load Disk.storage cache none Catalog.empty).run.run d' =
      (if Path.hasSuffix ".zip" cache then .error .archive else .ok found, d') := by
  obtain ⟨classes, hcontent, rfl⟩ := exists_document_of_build h
  rw [run_loadCache hcontent, cachedClasses_document]
  by_cases hzip : Path.hasSuffix ".zip" cache = true
  · rw [if_pos hzip, if_pos hzip]
    rfl
  · rw [if_neg hzip, if_neg hzip]
    rfl

/-- A cache that was just built loads as the catalog of its library, unless it is taken for an
    archive because of its path. A path whose extension is `json`, in whatever case, is not taken
    for one; any path that ends like `.zip` is, and then the load fails. -/
theorem load_build
    (h : (build Disk.storage library sources cache).run.run d = (.ok found, d')) :
    (Library.load Disk.storage cache none Catalog.empty).run.run d' =
        (if Path.hasSuffix ".zip" cache then .error .archive else .ok found, d') ∧
      ∀ extension, Path.extension? cache = some extension → extension.toLower = "json" →
        (Library.load Disk.storage cache none Catalog.empty).run.run d' = (.ok found, d') := by
  have hload := run_load_of_build h
  refine ⟨hload, fun extension hextension hjson => ?_⟩
  have hzip : ¬ Path.hasSuffix ".zip" cache = true := by
    intro hzip
    -- An extension of a path that ends like this is `zip`, and it cannot be both.
    have hother : extension.toLower = "zip" :=
      Path.toLower_eq_of_hasSuffix (by decide) (by decide) (by decide) hzip hextension
    exact absurd (hjson.symm.trans hother) (by decide)
  rwa [if_neg hzip] at hload

end disk

/-- A disk with the library `lib.jar`, of one class. -/
def sampleDisk : Disk :=
  ⟨[(["lib.jar".toList],
    Archive.write [ArchiveEntry.stored "a/A.class" (default : ClassFile.Image).bytes])], []⟩

theorem load_build_json :
    ∃ found after, found.names = ["A"] ∧
      (build Disk.storage "lib.jar" none "lib.json").run.run sampleDisk = (.ok found, after) ∧
        (Library.load Disk.storage "lib.json" none Catalog.empty).run.run after =
          (.ok found, after) := by
  obtain ⟨found, after, hbuild, hnames⟩ := exists_run_of_toOption
    (by decide +kernel : ((build Disk.storage "lib.jar" none "lib.json").run.run
      sampleDisk).1.toOption.map Catalog.names = some ["A"])
  exact ⟨found, after, hnames, hbuild, (load_build hbuild).2 "json" (by decide +kernel)
    (by decide +kernel)⟩

/-- The settings allow a cache with the name `lib.zip`, and it is built, but it does not load. -/
theorem not_load_build_zip :
    (Settings.checkCache "cache" "lib.zip").toOption = some () ∧
      ∃ found after, found.names = ["A"] ∧
        (build Disk.storage "lib.jar" none "lib.zip").run.run sampleDisk = (.ok found, after) ∧
          (Library.load Disk.storage "lib.zip" none Catalog.empty).run.run after ≠
            (.ok found, after) := by
  refine ⟨by decide +kernel, ?_⟩
  obtain ⟨found, after, hbuild, hnames⟩ := exists_run_of_toOption
    (by decide +kernel : ((build Disk.storage "lib.jar" none "lib.zip").run.run
      sampleDisk).1.toOption.map Catalog.names = some ["A"])
  refine ⟨found, after, hnames, hbuild, ?_⟩
  rw [run_load_of_build hbuild, if_pos (by decide +kernel)]
  exact nofun

end Library

end TypeCatalog
