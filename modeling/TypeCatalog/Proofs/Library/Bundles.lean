import TypeCatalog.Proofs.Library.Builds

/-! # Bundles

    A bundle is an archive with a library in it. To build from a bundle is to build from that
    library, in every respect: what the build gives, what it writes, and how it fails. The library
    is looked for by the end of its name, so an entry whose name merely ends as that of the library
    does takes its place if it comes first. -/

set_option autoImplicit false

namespace TypeCatalog.Library

variable {d : Disk} {bundle library : String} {bytes jar : List UInt8} {e : ArchiveEntry}
variable {before after : List ArchiveEntry}

/-! ## Section 1: The library in a bundle -/

/-- What a bundle gives is the content of the first entry whose name ends as that of the library
    does. -/
theorem bundledLibrary_eq (hread : Archive.read bytes = some (before ++ e :: after))
    (hfirst : ∀ other ∈ before, other.name.endsWith bundledName = false)
    (hname : e.name.endsWith bundledName = true) : bundledLibrary bytes = contentOf e := by
  have hbefore : before.find? (fun other => other.name.endsWith bundledName) = none := by
    rw [List.find?_eq_none]
    intro other hother
    rw [hfirst other hother]
    exact Bool.false_ne_true
  have hfind : (before ++ e :: after).find? (fun other => other.name.endsWith bundledName) =
      some e := by
    rw [List.find?_append, hbefore, Option.none_or]
    exact List.find?_cons_of_pos hname
  unfold bundledLibrary openArchive
  rw [hread]
  simp only [bind, Except.bind, hfind]

theorem libraryAt_bundle (hbundle : Path.hasSuffix ".aar" bundle = true)
    (hbytes : d.contentAt bundle = .ok bytes) : libraryAt d bundle = bundledLibrary bytes := by
  unfold libraryAt
  rw [hbytes, hbundle]
  rfl

/-! ## Section 2: Builds -/

theorem run_buildFrom_unreadable (sources : Option String) (cache : String)
    (hjar : Archive.read jar = none) :
    (buildFrom jar sources cache).run.run d = (.error .archive, d) := by
  have hclasses : classes jar = .error .archive := by
    unfold classes openArchive
    rw [hjar]
    rfl
  unfold buildFrom
  rw [hclasses]
  rfl

/-- To build from a bundle is to build from the library in it, if no entry before it has a name that
    ends as its own. Both runs give the same catalog and leave the same files, and if what is in the
    bundle is no archive both fail for that and write nothing. -/
theorem build_bundle (hbundle : Path.hasSuffix ".aar" bundle = true)
    (hlibrary : Path.hasSuffix ".aar" library = false)
    (hbytes : d.contentAt bundle = .ok bytes)
    (hread : Archive.read bytes = some (before ++ e :: after)) (hname : e.name = "classes.jar")
    (hfirst : ∀ other ∈ before, other.name.endsWith "classes.jar" = false)
    (hcontent : e.content = .ok jar) (hjar : d.contentAt library = .ok jar)
    (sources : Option String) (cache : String) :
    (build Disk.storage bundle sources cache).run.run d =
      (build Disk.storage library sources cache).run.run d ∧
    (Archive.read jar = none →
      (build Disk.storage bundle sources cache).run.run d = (.error .archive, d)) := by
  have hends : e.name.endsWith bundledName = true := by
    rw [hname]
    decide +kernel
  have hfound : libraryAt d bundle = .ok jar := by
    rw [libraryAt_bundle hbundle hbytes, bundledLibrary_eq hread hfirst hends]
    exact contentOf_eq_ok.2 hcontent
  have hplain : libraryAt d library = .ok jar := libraryAt_of_contentAt hjar hlibrary
  refine ⟨?_, ?_⟩
  · rw [run_build sources cache hfound, run_build sources cache hplain]
  · intro hunreadable
    rw [run_build sources cache hfound]
    exact run_buildFrom_unreadable sources cache hunreadable

/-- A library of one class. -/
def singleLibrary : List UInt8 :=
  Archive.write [ArchiveEntry.stored "a/A.class" (default : ClassFile.Image).bytes]

/-- A disk with a bundle of the given files, and with that library by itself. -/
def bundleOn (files : List (String × List UInt8)) : Disk :=
  ⟨[(["lib.aar".toList], Archive.write (Archive.ofFiles files)),
    (["lib.jar".toList], singleLibrary)], []⟩

theorem contentAt_bundleOn (files : List (String × List UInt8)) :
    (bundleOn files).contentAt "lib.aar" = .ok (Archive.write (Archive.ofFiles files)) ∧
    (bundleOn files).contentAt "lib.jar" = .ok singleLibrary := by
  constructor
  · exact contentAt_of_file? (by decide +kernel) rfl rfl (by decide +kernel)
  · exact contentAt_of_file? (by decide +kernel) rfl rfl (by decide +kernel)

/-- A bundle in which the library is between two other entries. -/
theorem build_bundle_amid :
    let files := [("libs/other.jar", [0]), ("classes.jar", singleLibrary), ("x/classes.jar", [])]
    (build Disk.storage "lib.aar" none "lib.json").run.run (bundleOn files) =
      (build Disk.storage "lib.jar" none "lib.json").run.run (bundleOn files) ∧
    ((build Disk.storage "lib.aar" none "lib.json").run.run
      (bundleOn files)).1.toOption.map Catalog.names = some ["A"] := by
  intro files
  have hread : Archive.read (Archive.write (Archive.ofFiles files)) =
      some ([ArchiveEntry.stored "libs/other.jar" [0]] ++
        ArchiveEntry.stored "classes.jar" singleLibrary ::
          [ArchiveEntry.stored "x/classes.jar" []]) :=
    Archive.read_write ⟨by decide +kernel, by decide +kernel, by decide +kernel⟩ (by decide +kernel)
  obtain ⟨hbytes, hjar⟩ := contentAt_bundleOn files
  obtain ⟨hsame, -⟩ := build_bundle (by decide +kernel) (by decide +kernel) hbytes hread rfl
    (by decide +kernel) (ArchiveEntry.content_stored _ _) hjar none "lib.json"
  refine ⟨hsame, ?_⟩
  rw [hsame, run_build none "lib.json" (libraryAt_of_contentAt hjar (by decide +kernel))]
  decide +kernel

/-- An empty library whose name only ends as the other one's is what is read, if it comes first. -/
theorem build_bundle_namesake :
    let files := [("libs/extra-classes.jar", Archive.write []), ("classes.jar", singleLibrary)]
    (∃ bytes archive e, (bundleOn files).contentAt "lib.aar" = .ok bytes ∧
      Archive.read bytes = some archive ∧ e ∈ archive ∧ e.name = "classes.jar" ∧
      e.content = .ok singleLibrary ∧
      (bundleOn files).contentAt "lib.jar" = .ok singleLibrary) ∧
    ((build Disk.storage "lib.aar" none "lib.json").run.run
      (bundleOn files)).1.toOption.map Catalog.names = some [] ∧
    ((build Disk.storage "lib.jar" none "lib.json").run.run
      (bundleOn files)).1.toOption.map Catalog.names = some ["A"] := by
  intro files
  have hread : Archive.read (Archive.write (Archive.ofFiles files)) =
      some ([] ++ ArchiveEntry.stored "libs/extra-classes.jar" (Archive.write []) ::
        [ArchiveEntry.stored "classes.jar" singleLibrary]) :=
    Archive.read_write ⟨by decide +kernel, by decide +kernel, by decide +kernel⟩ (by decide +kernel)
  obtain ⟨hbytes, hjar⟩ := contentAt_bundleOn files
  have hfound : libraryAt (bundleOn files) "lib.aar" = .ok (Archive.write []) := by
    rw [libraryAt_bundle (by decide +kernel) hbytes,
      bundledLibrary_eq hread (by simp) (by decide +kernel)]
    exact contentOf_eq_ok.2 (ArchiveEntry.content_stored _ _)
  have hplain : libraryAt (bundleOn files) "lib.jar" = .ok singleLibrary :=
    libraryAt_of_contentAt hjar (by decide +kernel)
  refine ⟨⟨_, _, ArchiveEntry.stored "classes.jar" singleLibrary, hbytes, hread, by simp, rfl,
    ArchiveEntry.content_stored _ _, hjar⟩, ?_, ?_⟩
  · rw [run_build none "lib.json" hfound]
    decide +kernel
  · rw [run_build none "lib.json" hplain]
    decide +kernel

end TypeCatalog.Library
