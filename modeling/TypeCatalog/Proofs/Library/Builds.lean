import Mathlib.Data.List.Nodup
import TypeCatalog.Proofs.Archive.RoundTrip
import TypeCatalog.Proofs.Library.Archives
import TypeCatalog.Proofs.Library.Caches
import TypeCatalog.Proofs.Library.Sources
import TypeCatalog.Proofs.Text.Order

/-! # Builds do not depend on the order of a library

    The classes of a library are those that its entries give one by one, and they are put in the
    order of their names. Nothing else of the library gets into its cache: two libraries that give
    the same classes, of different names, have the same cache, whatever the order of their entries
    is and wherever there are entries that give no class.

    This needs entries of different names. Entries of one name are merged when the library is read,
    and the last of them is what is left, a class or not. Which one that is depends on the order. -/

set_option autoImplicit false

namespace TypeCatalog.Library

open Text

/-! ## Section 1: Classes in the order of their names -/

section sort

variable {classes others : List CompiledClass}

theorem sortByName_perm (classes : List CompiledClass) : (sortByName classes).Perm classes :=
  List.mergeSort_perm _ _

theorem pairwise_sortByName (classes : List CompiledClass) :
    (sortByName classes).Pairwise fun a b => a.name ≤ b.name := by
  have hsorted : (sortByName classes).Pairwise fun a b => decide (a.name ≤ b.name) = true := by
    apply List.pairwise_mergeSort
    · intro a b c hab hbc
      exact decide_eq_true (String.le_trans (of_decide_eq_true hab) (of_decide_eq_true hbc))
    · intro a b
      rw [Bool.or_eq_true, decide_eq_true_iff, decide_eq_true_iff]
      exact String.le_total a.name b.name
  exact hsorted.imp of_decide_eq_true

/-- Classes of different names have one order by their names. -/
theorem sortByName_eq_of_perm (h : classes.Perm others)
    (hnames : (classes.map CompiledClass.name).Nodup) :
    sortByName classes = sortByName others := by
  -- Two classes that are before each other have one name, and then they are the same class.
  have hperm : (sortByName classes).Perm (sortByName others) :=
    (sortByName_perm classes).trans (h.trans (sortByName_perm others).symm)
  apply hperm.eq_of_pairwise _ (pairwise_sortByName classes) (pairwise_sortByName others)
  intro a b ha hb hab hba
  have ha : a ∈ classes := (sortByName_perm classes).mem_iff.1 ha
  have hb : b ∈ classes := h.mem_iff.2 ((sortByName_perm others).mem_iff.1 hb)
  exact List.inj_on_of_nodup_map hnames ha hb (String.le_antisymm hab hba)

/-- Classes of different names are in the strict order of the bytes of their names. -/
theorem pairwise_encode_lt (hnames : (classes.map CompiledClass.name).Nodup) :
    (sortByName classes).Pairwise fun a b =>
      Utf8.encode a.name.toList < Utf8.encode b.name.toList := by
  have hdiffer : (sortByName classes).Pairwise fun a b => a.name ≠ b.name := by
    rw [← List.pairwise_map]
    exact ((sortByName_perm classes).map CompiledClass.name).nodup_iff.2 hnames
  refine ((pairwise_sortByName classes).and hdiffer).imp fun {a b} ⟨hle, hne⟩ => ?_
  -- Names are compared character by character, which is the order of their bytes.
  apply Utf8.encode_lt_encode
  rw [← String.lt_iff, ← String.not_le]
  intro hge
  exact hne (String.le_antisymm hle hge)

end sort

/-! ## Section 2: Classes of an archive -/

/-- The class that an entry of a library gives: its content is one, and its name that of a class
    that is kept. -/
def classOf? (e : ArchiveEntry) : Option CompiledClass :=
  if isWanted isClassEntry e then e.content.toOption.bind decode? else none

/-- Every entry of a library can be opened, and unpacked if it has the name of a class that is
    kept. -/
structure IsReadable (archive : Archive) : Prop where
  opens : ∀ e ∈ archive, e.Opens
  reads : ∀ e ∈ archive, isWanted isClassEntry e = true → e.Reads

variable {archive archive' : Archive} {entries entries' : List ArchiveEntry} {jar jar' : List UInt8}

theorem IsReadable.of_perm (h : IsReadable archive) (hperm : archive.Perm archive') :
    IsReadable archive' where
  opens := fun e he => h.opens e (hperm.mem_iff.2 he)
  reads := fun e he => h.reads e (hperm.mem_iff.2 he)

theorem filterMap_decode? {entries : List ArchiveEntry} {contents : List (List UInt8)}
    (h : List.Forall₂ (fun e bytes => e.content = .ok bytes) entries contents) :
    contents.filterMap decode? = entries.filterMap fun e => e.content.toOption.bind decode? := by
  induction h with
  | nil => rfl
  | @cons e bytes entries contents hbytes _ ih =>
    rw [List.filterMap_cons, List.filterMap_cons, ih, hbytes]
    rfl

/-- The classes of a library are those that its entries give, by their names, if the entries can be
    read. -/
theorem classes_eq_ok_iff (hread : Archive.read jar = some archive)
    {found : List CompiledClass} :
    classes jar = .ok found ↔
      IsReadable archive ∧ found = sortByName (archive.filterMap classOf?) := by
  have hclasses : classes jar = (contentsOf archive isClassEntry).map fun contents =>
      sortByName (contents.filterMap decode?) := by
    unfold classes
    rw [openArchive, hread]
    rfl
  have hgiven : ∀ contents, contentsOf archive isClassEntry = .ok contents →
      contents.filterMap decode? = archive.filterMap classOf? := by
    intro contents hcontents
    rw [filterMap_decode? (contentsOf_eq_ok_iff.1 hcontents).2, List.filterMap_filter]
    rfl
  rw [hclasses, map_eq_ok]
  constructor
  · rintro ⟨contents, hcontents, rfl⟩
    obtain ⟨hopens, hreads⟩ := exists_contentsOf_iff.1 ⟨contents, hcontents⟩
    rw [hgiven contents hcontents]
    exact ⟨⟨hopens, hreads⟩, rfl⟩
  · rintro ⟨⟨hopens, hreads⟩, rfl⟩
    obtain ⟨contents, hcontents⟩ := exists_contentsOf_iff.2 ⟨hopens, hreads⟩
    rw [← hgiven contents hcontents]
    exact ⟨contents, hcontents, rfl⟩

/-- Two libraries with the same entries have the same classes, or neither can be read. -/
theorem toOption_classes_of_perm (hread : Archive.read jar = some archive)
    (hread' : Archive.read jar' = some archive')
    (hnames : ((archive.filterMap classOf?).map CompiledClass.name).Nodup)
    (hperm : archive.Perm archive') : (classes jar').toOption = (classes jar).toOption := by
  have hsort : sortByName (archive.filterMap classOf?) = sortByName (archive'.filterMap classOf?) :=
    sortByName_eq_of_perm (hperm.filterMap classOf?) hnames
  -- The failures may differ, since the entries are read in the order of the archive.
  have hsame : ∀ found, classes jar' = .ok found ↔ classes jar = .ok found := by
    intro found
    rw [classes_eq_ok_iff hread, classes_eq_ok_iff hread', hsort]
    exact and_congr_left' ⟨fun h => h.of_perm hperm.symm, fun h => h.of_perm hperm⟩
  cases hfound : classes jar with
  | ok found => rw [(hsame found).2 hfound]
  | error failure =>
    cases hfound' : classes jar' with
    | ok found =>
      rw [(hsame found).1 hfound'] at hfound
      cases hfound
    | error failure' => rfl

/-! ## Section 3: Builds -/

/-- The library that a file holds, by itself or in a bundle. -/
def libraryAt (d : Disk) (path : String) : Except Failure (List UInt8) :=
  ((d.contentAt path).mapError .file).bind fun bytes =>
    if Path.hasSuffix ".aar" path then bundledLibrary bytes else .ok bytes

theorem libraryAt_of_contentAt {d : Disk} {path : String} {jar : List UInt8}
    (hjar : d.contentAt path = .ok jar) (hplain : Path.hasSuffix ".aar" path = false) :
    libraryAt d path = .ok jar := by
  rw [libraryAt, hjar, hplain]
  rfl

theorem contentAt_of_file? {d : Disk} {path : String} {place : Place} {bytes : List UInt8}
    (hcheck : Disk.checkPath path = .ok ()) (hwalk : d.walk [] (Path.steps path) = .ok place)
    (hfile : d.file? place = some bytes) (hend : path.endsWith "/" = false) :
    d.contentAt path = .ok bytes := by
  unfold Disk.contentAt
  refine bind_eq_ok.2 ⟨(), hcheck, bind_eq_ok.2 ⟨place, hwalk, ?_⟩⟩
  rw [hfile, hend]
  rfl

/-- A class with what the sources on a disk say about it, if there is a folder with sources. -/
def describedOn (d : Disk) : Option String → CompiledClass → CompiledClass
  | none, c => c
  | some base, c => documented d.contentAt base c

variable {d d' : Disk} {library : String} {sources : Option String}

theorem describedOn_congr {c : CompiledClass}
    (h : ∀ base path, sources = some base → IsSourceOf base c.name path →
      (d.contentAt path).toOption = (d'.contentAt path).toOption) :
    describedOn d sources c = describedOn d' sources c := by
  cases sources with
  | none => rfl
  | some base =>
    show documented d.contentAt base c = documented d'.contentAt base c
    unfold documented sourceAt?
    rw [h base _ rfl (isSourceOf_iff.2 rfl)]

/-- What a run on a disk did: it put a document into a file and gave a catalog, or it failed because
    the document cannot be put there. -/
def Writes (run : Except Failure Catalog × Disk) (d : Disk) (cache : String)
    (document : List UInt8) (catalog : Catalog) : Prop :=
  match d.store cache document with
  | (.ok (), after) => run = (.ok catalog, after) ∧ after.contentAt cache = .ok document
  | (.error fault, after) => run = (.error (.file fault), after)

theorem run_describe (d : Disk) (sources : Option String) (found : List CompiledClass) :
    (addSources Disk.storage sources found).run d = (found.map (describedOn d sources), d) := by
  cases sources with
  | none =>
    rw [show describedOn d none = id from rfl, List.map_id]
    rfl
  | some base => exact run_addSources Disk.answers_storage base found d

/-- To save a document and then give a catalog is to write the one and give the other. -/
theorem writes_save (d : Disk) (cache : String) (document : List UInt8) (catalog : Catalog) :
    Writes ((do Disk.storage.save cache document; return catalog :
      ExceptT Failure (StateM Disk) Catalog).run.run d) d cache document catalog := by
  unfold Writes
  rw [ExceptT.run_bind, StateT.run_bind, run_save]
  rcases hstore : d.store cache document with ⟨fault | ⟨⟩, after⟩
  · rfl
  · exact ⟨rfl, Disk.contentAt_of_store hstore⟩

theorem classesAt_eq (path : String) (bytes : List UInt8) :
    classesAt path bytes =
      (if Path.hasSuffix ".aar" path then bundledLibrary bytes else .ok bytes).bind classes := by
  unfold classesAt
  split <;> rfl

/-- What is left of a build once the library is found. -/
def buildFrom (jar : List UInt8) (sources : Option String) (cache : String) :
    ExceptT Failure (StateM Disk) Catalog := do
  let bare ← classes jar
  let found ← ExceptT.lift (addSources Disk.storage sources bare)
  Disk.storage.save cache (documentOf found)
  return catalogOf found

/-- A build does not see where the library was found. -/
theorem run_build (sources : Option String) (cache : String)
    (hjar : libraryAt d library = .ok jar) :
    (build Disk.storage library sources cache).run.run d =
      (buildFrom jar sources cache).run.run d := by
  obtain ⟨bytes, hbytes, hbundle⟩ := bind_eq_ok.1 hjar
  have hload : (Disk.storage.load library).run.run d = (.ok bytes, d) := by
    rw [run_load, hbytes]
  have hclasses : classesAt library bytes = classes jar := by
    rw [classesAt_eq, hbundle]
    rfl
  unfold build
  rw [run_bind_of_eq_ok hload, hclasses]
  rfl

/-- To build is to write the classes of the library, each with what its source says. -/
theorem writes_build {found : List CompiledClass} (sources : Option String) (cache : String)
    (hjar : libraryAt d library = .ok jar) (hfound : classes jar = .ok found) :
    Writes ((build Disk.storage library sources cache).run.run d) d cache
      (documentOf (found.map (describedOn d sources)))
      (catalogOf (found.map (describedOn d sources))) := by
  have hbare : (liftM (classes jar) : ExceptT Failure (StateM Disk) _).run.run d =
      (.ok found, d) := by
    rw [hfound]
    rfl
  have hdescribed :
      (ExceptT.lift (addSources Disk.storage sources found) :
        ExceptT Failure (StateM Disk) _).run.run d =
      (.ok (found.map (describedOn d sources)), d) := by
    rw [ExceptT.run_lift]
    show (_ <$> (addSources Disk.storage sources found)).run d = _
    rw [StateT.run_map, run_describe]
    rfl
  -- Up to here the disk is as it was, so that what is left to do is to save the document.
  rw [run_build sources cache hjar]
  unfold buildFrom
  rw [run_bind_of_eq_ok hbare, run_bind_of_eq_ok hdescribed]
  exact writes_save d cache _ _

/-- A build reads a library and the sources of its classes, and nothing else: from the same classes
    and the same sources for them it writes the same document. -/
theorem exists_writes_both {library' : String} {found : List CompiledClass} (cache cache' : String)
    (hfound : classes jar = .ok found) (hfound' : classes jar' = .ok found)
    (hjar : libraryAt d library = .ok jar) (hjar' : libraryAt d' library' = .ok jar')
    (hsources : ∀ base path, ∀ c ∈ found, sources = some base → IsSourceOf base c.name path →
      (d.contentAt path).toOption = (d'.contentAt path).toOption) :
    ∃ document catalog,
      Writes ((build Disk.storage library sources cache).run.run d) d cache document catalog ∧
      Writes ((build Disk.storage library' sources cache').run.run d') d' cache' document
        catalog := by
  have hsame : found.map (describedOn d sources) = found.map (describedOn d' sources) := by
    apply List.map_congr_left
    intro c hc
    apply describedOn_congr
    intro base path hbase hpath
    exact hsources base path c hc hbase hpath
  have hwrites := writes_build sources cache hjar hfound
  rw [hsame] at hwrites
  exact ⟨_, _, hwrites, writes_build sources cache' hjar' hfound'⟩

/-- Builds are reproducible. Let the entries of a library have different names, since those of one
    name are merged when it is read, and let the classes that they give have different names. The
    library has the classes that each of its entries gives, if they can all be read. With the same
    entries in another order it has the same classes, or none can be read of either. And where two
    such libraries give the same classes, in whatever order and with whatever entries that give no
    class between them, these are found in both, once each and in the strict order of the bytes of
    their names, and any two builds from them with the same sources for these classes write the same
    document and give the same catalog. -/
theorem build_reproducible (hlisting : Archive.listing jar = some entries)
    (hlisting' : Archive.listing jar' = some entries')
    (hdistinct : (entries.map ArchiveEntry.name).Nodup)
    (hnames : ((entries.filterMap classOf?).map CompiledClass.name).Nodup) :
    ((∃ found, classes jar = .ok found) ↔ IsReadable entries) ∧
    (entries.Perm entries' → (classes jar').toOption = (classes jar).toOption) ∧
    ((entries'.map ArchiveEntry.name).Nodup → IsReadable entries → IsReadable entries' →
      (entries.filterMap classOf?).Perm (entries'.filterMap classOf?) →
      ∃ found, classes jar = .ok found ∧ classes jar' = .ok found ∧
        (found.Pairwise fun a b => Utf8.encode a.name.toList < Utf8.encode b.name.toList) ∧
        found.Perm (entries.filterMap classOf?) ∧
        ∀ (d d' : Disk) (library library' : String) (sources : Option String)
            (cache cache' : String),
          libraryAt d library = .ok jar → libraryAt d' library' = .ok jar' →
          (∀ base path, ∀ c ∈ found, sources = some base → IsSourceOf base c.name path →
            (d.contentAt path).toOption = (d'.contentAt path).toOption) →
          ∃ document catalog,
            Writes ((build Disk.storage library sources cache).run.run d) d cache document
              catalog ∧
            Writes ((build Disk.storage library' sources cache').run.run d') d' cache' document
              catalog) := by
  have hread : Archive.read jar = some entries := Archive.read_of_listing hlisting hdistinct
  refine ⟨?_, fun hperm => ?_, fun hdistinct' hreadable hreadable' hperm => ?_⟩
  · simp only [classes_eq_ok_iff hread, exists_and_left, exists_eq, and_true]
  · have hdistinct' : (entries'.map ArchiveEntry.name).Nodup :=
      (hperm.map ArchiveEntry.name).nodup_iff.1 hdistinct
    exact toOption_classes_of_perm hread (Archive.read_of_listing hlisting' hdistinct') hnames hperm
  have hread' : Archive.read jar' = some entries' := Archive.read_of_listing hlisting' hdistinct'
  have hfound : classes jar = .ok (sortByName (entries.filterMap classOf?)) :=
    (classes_eq_ok_iff hread).2 ⟨hreadable, rfl⟩
  have hfound' : classes jar' = .ok (sortByName (entries.filterMap classOf?)) :=
    (classes_eq_ok_iff hread').2 ⟨hreadable', sortByName_eq_of_perm hperm hnames⟩
  refine ⟨_, hfound, hfound', pairwise_encode_lt hnames, sortByName_perm _, ?_⟩
  intro d d' library library' sources cache cache' hjar hjar' hsources
  exact exists_writes_both cache cache' hfound hfound' hjar hjar' hsources

/-- A class with a name that is after that of the default one. -/
def laterImage : ClassFile.Image :=
  { (default : ClassFile.Image) with
    constants := [.utf8 "B", .classRef 1]
    textsFit := by decide
    slotsFit := by decide
    name := ⟨2, ⟨1, "B", rfl⟩, rfl⟩
    superclass := none
    interfaces := []
    interfacesFit := by decide
    fields := []
    fieldsFit := by decide
    methods := []
    methodsFit := by decide
    attributes := []
    attributesFit := by decide }

/-- The files of a library: two classes, and an entry that only has the name of one. -/
def sampleFiles : List (String × List UInt8) :=
  [("a/B.class", laterImage.bytes), ("a/C.class", [0]),
    ("a/A.class", (default : ClassFile.Image).bytes)]

/-- A disk with two libraries and a source. -/
def librariesOn (jar jar' : List UInt8) : Disk :=
  ⟨[(["lib.jar".toList], jar), (["other.jar".toList], jar'),
    (["src".toList, "A.java".toList], Utf8.encode "/** First. */ class A \x7b\x7d".toList)], []⟩

theorem isReadable_ofFiles (files : List (String × List UInt8)) :
    IsReadable (Archive.ofFiles files) := by
  have hreads : ∀ e ∈ Archive.ofFiles files, e.Reads := by
    intro e he
    obtain ⟨⟨name, bytes⟩, -, rfl⟩ := List.mem_map.1 he
    exact ⟨bytes, ArchiveEntry.content_stored name bytes⟩
  refine ⟨fun e he => ?_, fun e he _ => hreads e he⟩
  obtain ⟨bytes, hbytes⟩ := hreads e he
  exact ArchiveEntry.opens_of_content hbytes

/-- A library and the one with the same entries the other way round have the same cache. -/
theorem build_reproducible_reversed :
    let jar := Archive.write (Archive.ofFiles sampleFiles)
    let jar' := Archive.write (Archive.ofFiles sampleFiles.reverse)
    let d := librariesOn jar jar'
    (Archive.ofFiles sampleFiles).Perm (Archive.ofFiles sampleFiles.reverse) ∧
    ∃ found, classes jar = .ok found ∧ classes jar' = .ok found ∧
      (found.Pairwise fun a b => Utf8.encode a.name.toList < Utf8.encode b.name.toList) ∧
      ∃ document catalog,
        Writes ((build Disk.storage "lib.jar" (some "src") "lib.json").run.run d) d "lib.json"
          document catalog ∧
        Writes ((build Disk.storage "other.jar" (some "src") "other.json").run.run d) d
          "other.json" document catalog := by
  intro jar jar' d
  have hlisting : Archive.listing jar = some (Archive.ofFiles sampleFiles) :=
    Archive.listing_write ⟨by decide +kernel, by decide +kernel, by decide +kernel⟩
  have hlisting' : Archive.listing jar' = some (Archive.ofFiles sampleFiles.reverse) :=
    Archive.listing_write ⟨by decide +kernel, by decide +kernel, by decide +kernel⟩
  have hperm : (Archive.ofFiles sampleFiles).Perm (Archive.ofFiles sampleFiles.reverse) :=
    (List.reverse_perm sampleFiles).symm.map _
  have hnames : (((Archive.ofFiles sampleFiles).filterMap classOf?).map
      CompiledClass.name).Nodup := by decide +kernel
  obtain ⟨found, hfound, hfound', hsorted, -, hbuilds⟩ :=
    (build_reproducible hlisting hlisting' (by decide +kernel) hnames).2.2 (by decide +kernel)
      (isReadable_ofFiles _) (isReadable_ofFiles _) (hperm.filterMap _)
  have hjar : libraryAt d "lib.jar" = .ok jar :=
    libraryAt_of_contentAt
      (contentAt_of_file? (by decide +kernel) rfl rfl (by decide +kernel)) (by decide +kernel)
  have hjar' : libraryAt d "other.jar" = .ok jar' :=
    libraryAt_of_contentAt
      (contentAt_of_file? (by decide +kernel) rfl rfl (by decide +kernel)) (by decide +kernel)
  exact ⟨hperm, found, hfound, hfound', hsorted, hbuilds d d "lib.jar" "other.jar" (some "src")
    "lib.json" "other.json" hjar hjar' fun _ _ _ _ _ _ => rfl⟩

/-- Of two entries of one name the second one is read. -/
theorem classes_namesakes {name : String} {bytes bytes' : List UInt8}
    (h : Archive.IsSmall [(name, bytes), (name, bytes')]) :
    classes (Archive.write (Archive.ofFiles [(name, bytes), (name, bytes')])) =
      .ok (sortByName ((Archive.ofFiles [(name, bytes')]).filterMap classOf?)) := by
  have hmerged : Archive.merged (Archive.ofFiles [(name, bytes), (name, bytes')]) =
      Archive.ofFiles [(name, bytes')] := by
    simp [Archive.merged, Archive.ofFiles, Archive.put, ArchiveEntry.stored]
  have hread : Archive.read (Archive.write (Archive.ofFiles [(name, bytes), (name, bytes')])) =
      some (Archive.ofFiles [(name, bytes')]) := by
    rw [Archive.read_eq, Archive.listing_write h, Option.map_some, hmerged]
  exact (classes_eq_ok_iff hread).2 ⟨isReadable_ofFiles _, rfl⟩

/-- A library with two entries of one name gives one class, the one that comes last, although the
    entries have two classes of different names. So the order of the entries does matter, and a
    class is lost if an entry that gives none follows under its name. -/
theorem classes_namesakes_by_order :
    let first := ("a/X.class", (default : ClassFile.Image).bytes)
    let later := ("a/X.class", laterImage.bytes)
    let broken := ("a/X.class", [0])
    let jar := Archive.write (Archive.ofFiles [first, later])
    let jar' := Archive.write (Archive.ofFiles [later, first])
    let names := fun library =>
      (classes library).toOption.map fun found => found.map CompiledClass.name
    Archive.listing jar = some (Archive.ofFiles [first, later]) ∧
    Archive.listing jar' = some (Archive.ofFiles [later, first]) ∧
    IsReadable (Archive.ofFiles [first, later]) ∧
    ((Archive.ofFiles [first, later]).filterMap classOf?).map CompiledClass.name = ["A", "B"] ∧
    names jar = some ["B"] ∧ names jar' = some ["A"] ∧
    names (Archive.write (Archive.ofFiles [first, broken])) = some [] := by
  intro first later broken jar jar' names
  have hsmall : Archive.IsSmall [first, later] :=
    ⟨by decide +kernel, by decide +kernel, by decide +kernel⟩
  have hsmall' : Archive.IsSmall [later, first] :=
    ⟨by decide +kernel, by decide +kernel, by decide +kernel⟩
  have hbroken : Archive.IsSmall [first, broken] :=
    ⟨by decide +kernel, by decide +kernel, by decide +kernel⟩
  refine ⟨Archive.listing_write hsmall, Archive.listing_write hsmall', isReadable_ofFiles _,
    by decide +kernel, ?_, ?_, ?_⟩
  · show (classes jar).toOption.map _ = _
    rw [classes_namesakes hsmall]
    decide +kernel
  · show (classes jar').toOption.map _ = _
    rw [classes_namesakes hsmall']
    decide +kernel
  · show (classes _).toOption.map _ = _
    rw [classes_namesakes hbroken]
    decide +kernel

end TypeCatalog.Library
