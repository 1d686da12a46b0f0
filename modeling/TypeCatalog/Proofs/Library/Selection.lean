import TypeCatalog.Proofs.Archive.RoundTrip
import TypeCatalog.Proofs.Json.RoundTrip
import TypeCatalog.Proofs.Library.Archives
import TypeCatalog.Proofs.Library.Dependencies

/-! # Documents of selected libraries

    A zipped cache has one document for each library, below a path that is made from the name of the
    library. To load some libraries is to load the documents whose paths contain the name of one of
    these or of one that they depend on. So all documents that are needed are loaded, in the order
    of the archive. A path contains more than the one name, though: the document of a library is
    also loaded for another library whose name is a part of its own name, or of what stands around
    it in the path. -/

set_option autoImplicit false

namespace TypeCatalog

/-! ## Section 1: Paths of documents -/

namespace Library

/-- The path of the document of a library in a zipped cache. -/
def documentPath (library : String) : String := "cache/" ++ library ++ ".json"

theorem occursIn_iff {part s : List Char} : occursIn part s = true ↔ part <:+: s := by
  induction s with
  | nil =>
    rw [occursIn, Bool.or_false, List.isPrefixOf_iff_prefix, List.prefix_nil, List.infix_nil]
  | cons c s ih =>
    rw [occursIn, Bool.or_eq_true, List.isPrefixOf_iff_prefix, List.infix_cons_iff]
    exact or_congr Iff.rfl ih

theorem isDocument_documentPath (library : String) : isDocument (documentPath library) = true := by
  unfold isDocument documentPath
  rw [Bool.and_eq_true, String.startsWith_string_iff, String.endsWith_eq_endsWith_toSlice,
    String.Slice.endsWith_string_iff, String.copy_toSlice]
  constructor
  · rw [String.append_assoc, String.toList_append]
    exact List.prefix_append _ _
  · rw [String.toList_append]
    exact List.suffix_append _ _

/-- The path of a document has the name of its library in it. -/
theorem infix_documentPath (library : String) :
    library.toList <:+: (documentPath library).toList := by
  unfold documentPath
  rw [String.toList_append, String.toList_append]
  exact List.infix_append _ _ _

theorem documentPath_inj {library other : String} (h : documentPath library = documentPath other) :
    library = other := by
  unfold documentPath at h
  rw [← String.toList_inj] at h ⊢
  simpa only [String.toList_append, List.append_cancel_left_eq, List.append_cancel_right_eq] using h

end Library

/-- An entry is the document of a library. -/
def ArchiveEntry.IsDocumentOf (e : ArchiveEntry) (library : String) : Prop :=
  e.isFile = true ∧ e.name = Library.documentPath library

theorem ArchiveEntry.IsDocumentOf.unique {e : ArchiveEntry} {library other : String}
    (h : e.IsDocumentOf library) (hother : e.IsDocumentOf other) : library = other :=
  Library.documentPath_inj (h.2.symm.trans hother.2)

namespace Library

/-! ## Section 2: Zipped caches -/

/-- Bytes are a zipped cache that can be read: an archive with an object as its manifest, whose
    other files below `cache/` are the documents of libraries. -/
structure IsCache (bytes : List UInt8) (archive : Archive) (members : List (String × Json)) :
    Prop where
  reads : Archive.read bytes = some archive
  opens : ∀ e ∈ archive, e.Opens
  manifest : ∃ text, contentNamed archive manifestName = .ok text ∧
    Json.ofBytes? text = some (.object members)
  documents : ∀ e ∈ archive, e.isFile = true → isDocument e.name = true →
    e.Reads ∧ ∃ library, library ≠ "" ∧ e.IsDocumentOf library

/-- An entry is the document of a library that is needed. -/
def IsNeeded (members : List (String × Json)) (libraries : List String) (e : ArchiveEntry) : Prop :=
  ∃ library, Needed members libraries library ∧ e.IsDocumentOf library

/-- An entry is the document of a library, and its path contains the name of one that is needed. -/
def IsSelected (members : List (String × Json)) (libraries : List String) (e : ArchiveEntry) :
    Prop :=
  ∃ library needed, Needed members libraries needed ∧ e.IsDocumentOf library ∧
    needed.toList <:+: (documentPath library).toList

variable {bytes : List UInt8} {archive : Archive} {members : List (String × Json)}
  {libraries : List String} {e : ArchiveEntry}

theorem IsNeeded.isSelected (h : IsNeeded members libraries e) :
    IsSelected members libraries e := by
  obtain ⟨library, hneeded, hdocument⟩ := h
  exact ⟨library, library, hneeded, hdocument, infix_documentPath library⟩

theorem IsCache.manifestOf_eq (h : IsCache bytes archive members) :
    ∃ manifest, manifestOf archive = .ok manifest ∧
      Manifest.ofJson? (.object members) = some manifest := by
  obtain ⟨text, htext, hjson⟩ := h.manifest
  obtain ⟨manifest, hmanifest⟩ : ∃ manifest, Manifest.ofJson? (.object members) = some manifest :=
    ⟨_, rfl⟩
  have hread : (Json.ofBytes? text).bind Manifest.ofJson? = some manifest := by
    rw [hjson, Option.bind_some, hmanifest]
  refine ⟨manifest, ?_, hmanifest⟩
  unfold manifestOf
  refine bind_eq_ok.2 ⟨text, htext, ?_⟩
  rw [hread]

theorem IsCache.openArchive_eq (h : IsCache bytes archive members) :
    openArchive bytes = .ok archive := by
  rw [openArchive, h.reads]

/-- The files that are read for some libraries are the selected ones. -/
theorem IsCache.isWanted_iff (h : IsCache bytes archive members) {manifest : Manifest}
    (hmanifest : Manifest.ofJson? (.object members) = some manifest) (he : e ∈ archive) :
    isWanted (isDocumentOf (manifest.closure libraries)) e = true ↔
      IsSelected members libraries e := by
  unfold isWanted isDocumentOf
  rw [Bool.and_eq_true, Bool.and_eq_true, List.any_eq_true]
  simp only [occursIn_iff, mem_closure_iff hmanifest]
  constructor
  · rintro ⟨hfile, hdocument, needed, hneeded, hinfix⟩
    obtain ⟨-, library, -, hown⟩ := h.documents e he hfile hdocument
    rw [hown.2] at hinfix
    exact ⟨library, needed, hneeded, hown, hinfix⟩
  · rintro ⟨library, needed, hneeded, ⟨hfile, hname⟩, hinfix⟩
    rw [hname]
    exact ⟨hfile, isDocument_documentPath library, needed, hneeded, hinfix⟩

open Classical in
/-- What is loaded for some libraries are the contents of the selected documents. -/
theorem IsCache.exists_zippedDocuments (h : IsCache bytes archive members)
    (libraries : List String) :
    ∃ documents, zippedDocuments bytes (some libraries) = .ok documents ∧
      List.Forall₂ (fun e document => e.content = .ok document)
        (archive.filter fun e => IsSelected members libraries e) documents := by
  obtain ⟨manifest, hread, hmanifest⟩ := h.manifestOf_eq
  have hfilter : (archive.filter fun e => IsSelected members libraries e) =
      archive.filter (isWanted (isDocumentOf (manifest.closure libraries))) := by
    apply List.filter_congr
    intro e he
    rw [Bool.eq_iff_iff, decide_eq_true_iff, h.isWanted_iff hmanifest he]
  obtain ⟨documents, hdocuments⟩ : ∃ documents,
      contentsOf archive (isDocumentOf (manifest.closure libraries)) = .ok documents := by
    refine exists_contentsOf_iff.2 ⟨h.opens, fun e he hwanted => ?_⟩
    obtain ⟨library, _, _, hdocument, _⟩ := (h.isWanted_iff hmanifest he).1 hwanted
    exact (h.documents e he hdocument.1 (hdocument.2 ▸ isDocument_documentPath library)).1
  refine ⟨documents, ?_, ?_⟩
  · unfold zippedDocuments wantedEntries
    rw [h.openArchive_eq]
    show ((manifestOf archive).bind fun manifest => _).bind _ = _
    rw [hread]
    exact hdocuments
  · rw [hfilter]
    exact (contentsOf_eq_ok_iff.1 hdocuments).2

open Classical in
/-- Where no path of a document that is not needed contains the name of a needed library, the needed
    documents are selected and no others. -/
theorem filter_isSelected
    (h : ∀ e ∈ archive, ∀ library needed, e.IsDocumentOf library → Needed members libraries needed →
      needed.toList <:+: (documentPath library).toList → Needed members libraries library) :
    (archive.filter fun e => IsSelected members libraries e) =
      archive.filter fun e => IsNeeded members libraries e := by
  apply List.filter_congr
  intro e he
  rw [decide_eq_decide]
  constructor
  · rintro ⟨library, needed, hneeded, hdocument, hinfix⟩
    exact ⟨library, h e he library needed hdocument hneeded hinfix, hdocument⟩
  · exact IsNeeded.isSelected

/-! ## Section 3: Written caches -/

/-- The files of a zipped cache with a manifest and the documents of some libraries. -/
def cacheFiles (members : List (String × Json)) (documents : List (String × List UInt8)) :
    List (String × List UInt8) :=
  (manifestName, Text.Utf8.encode (Json.compact (.object members))) ::
    documents.map fun (library, document) => (documentPath library, document)

theorem not_isDocument_manifestName : ¬ isDocument manifestName = true := by decide +kernel

/-- The documents in a written cache are of the libraries that it was written for. -/
theorem mem_of_isDocumentOf {documents : List (String × List UInt8)} {library : String}
    (he : e ∈ Archive.ofFiles (cacheFiles members documents)) (h : e.IsDocumentOf library) :
    library ∈ documents.map Prod.fst := by
  obtain ⟨⟨name, bytes⟩, hmem, rfl⟩ := List.mem_map.1 he
  have hname : name = documentPath library := h.2
  rcases List.mem_cons.1 hmem with hmanifest | hmem
  · rw [(Prod.mk.inj hmanifest).1] at hname
    exact absurd (hname ▸ isDocument_documentPath library) not_isDocument_manifestName
  · obtain ⟨⟨other, document⟩, hother, heq⟩ := List.mem_map.1 hmem
    obtain rfl := documentPath_inj ((Prod.mk.inj heq).1.trans hname)
    exact List.mem_map_of_mem hother

/-- A cache with one document for each of some libraries can be read. -/
theorem isCache_cacheFiles {documents : List (String × List UInt8)}
    (hsmall : Archive.IsSmall (cacheFiles members documents))
    (hfiles : ((cacheFiles members documents).map Prod.fst).Nodup)
    (hplain : (Json.object members).Plain Json.depthLimit) (hnames : ∀ d ∈ documents, d.1 ≠ "") :
    IsCache (Archive.write (Archive.ofFiles (cacheFiles members documents)))
      (Archive.ofFiles (cacheFiles members documents)) members where
  reads := Archive.read_write hsmall hfiles
  opens := by
    intro e he
    obtain ⟨⟨name, bytes⟩, -, rfl⟩ := List.mem_map.1 he
    exact ArchiveEntry.opens_of_content (ArchiveEntry.content_stored name bytes)
  manifest := by
    refine ⟨_, ?_, Json.ofBytes?_compact hplain⟩
    exact contentOf_eq_ok.2 (ArchiveEntry.content_stored _ _)
  documents := by
    intro e he hfile hdocument
    obtain ⟨⟨name, bytes⟩, hmem, rfl⟩ := List.mem_map.1 he
    refine ⟨⟨bytes, ArchiveEntry.content_stored name bytes⟩, ?_⟩
    rcases List.mem_cons.1 hmem with hmanifest | hmem
    · obtain rfl := (Prod.mk.inj hmanifest).1
      exact absurd hdocument not_isDocument_manifestName
    · obtain ⟨⟨library, document⟩, hlibrary, heq⟩ := List.mem_map.1 hmem
      exact ⟨library, hnames _ hlibrary, hfile, (Prod.mk.inj heq).1.symm⟩

/-! ## Section 4: Selected documents -/

open Classical in
/-- For every cache and every list of libraries the documents are loaded, in the order of the
    archive, whose paths contain the name of a library that is in the list or that one in the list
    leads to. All documents of these libraries are among them. No others are if no path of another
    document contains one of the names. -/
theorem zippedDocuments_selected (h : IsCache bytes archive members) (libraries : List String) :
    (∃ documents, zippedDocuments bytes (some libraries) = .ok documents ∧
      List.Forall₂ (fun e document => e.content = .ok document)
        (archive.filter fun e => IsSelected members libraries e) documents) ∧
    (∀ e ∈ archive, IsNeeded members libraries e → IsSelected members libraries e) ∧
    ((∀ e ∈ archive, ∀ library needed, e.IsDocumentOf library →
        Needed members libraries needed → needed.toList <:+: (documentPath library).toList →
          Needed members libraries library) →
      (archive.filter fun e => IsSelected members libraries e) =
        archive.filter fun e => IsNeeded members libraries e) := by
  refine ⟨h.exists_zippedDocuments libraries, ?_, filter_isSelected⟩
  intro e _ hneeded
  exact hneeded.isSelected

/-- The manifest of three libraries: `core`, `core-ui` which depends on `app`, and `app`. -/
def sampleManifest : List (String × Json) :=
  [("core", .array []), ("core-ui", .array [.string "app"]), ("app", .array [])]

/-- A cache of the three libraries, with a document without classes for each. -/
def sampleCache : Archive :=
  Archive.ofFiles (cacheFiles sampleManifest
    (["core", "core-ui", "app"].map fun library => (library, documentOf [])))

theorem isCache_sample : IsCache (Archive.write sampleCache) sampleCache sampleManifest := by
  apply isCache_cacheFiles
  · exact ⟨by decide +kernel, by decide +kernel, by decide +kernel⟩
  · decide +kernel
  · simp [sampleManifest, Json.Plain, Json.depthLimit, Json.MembersPlain, Json.AllPlain]
  · decide

open Classical in
/-- To load `core-ui` is to load `app` with it, and the path of `core` contains neither name. -/
theorem zippedDocuments_selected_dependency :
    IsCache (Archive.write sampleCache) sampleCache sampleManifest ∧
      ∃ documents, zippedDocuments (Archive.write sampleCache) (some ["core-ui"]) = .ok documents ∧
        List.Forall₂ (fun e document => e.content = .ok document)
          (sampleCache.filter fun e => IsNeeded sampleManifest ["core-ui"] e) documents := by
  refine ⟨isCache_sample, ?_⟩
  obtain ⟨hdocuments, -, hexact⟩ := zippedDocuments_selected isCache_sample ["core-ui"]
  have hneeded : ∀ library, Needed sampleManifest ["core-ui"] library ↔
      library ∈ ["core-ui", "app"] := by
    intro library
    exact needed_iff_of_closeWithin rfl 2 (by decide) (by decide)
  rw [← hexact]
  · exact hdocuments
  · intro e he library needed hdocument hmem hinfix
    have hlibrary : library ∈ ["core", "core-ui", "app"] := mem_of_isDocumentOf he hdocument
    rw [hneeded] at hmem ⊢
    exact (by decide +kernel : ∀ library ∈ ["core", "core-ui", "app"],
      ∀ needed ∈ ["core-ui", "app"], needed.toList <:+: (documentPath library).toList →
        library ∈ ["core-ui", "app"]) library hlibrary needed hmem hinfix

open Classical in
/-- To load `core`, which depends on nothing, is to load `core-ui` as well: the path of its document
    contains the name `core`. -/
theorem zippedDocuments_not_only_needed :
    IsCache (Archive.write sampleCache) sampleCache sampleManifest ∧
      (∃ e ∈ sampleCache, e.IsDocumentOf "core") ∧ ¬ Needed sampleManifest ["core"] "core-ui" ∧
      ¬ ∃ documents, zippedDocuments (Archive.write sampleCache) (some ["core"]) = .ok documents ∧
        List.Forall₂ (fun e document => e.content = .ok document)
          (sampleCache.filter fun e => IsNeeded sampleManifest ["core"] e) documents := by
  have hneeded : ∀ library, Needed sampleManifest ["core"] library ↔ library ∈ ["core"] := by
    intro library
    exact needed_iff_of_closeWithin rfl 2 (by decide) (by decide)
  have hnot : ¬ Needed sampleManifest ["core"] "core-ui" := by
    rw [hneeded]
    decide
  refine ⟨isCache_sample, ⟨_, List.mem_cons_of_mem _ List.mem_cons_self, by decide +kernel, rfl⟩,
    hnot, ?_⟩
  rintro ⟨documents, hdocuments, hall⟩
  obtain ⟨documents', hdocuments', hall'⟩ := isCache_sample.exists_zippedDocuments ["core"]
  obtain rfl : documents = documents' := Except.ok.inj (hdocuments.symm.trans hdocuments')
  -- As many documents are selected as would be needed, so each selected one would be needed.
  have hsublist : List.Sublist (sampleCache.filter fun e => IsNeeded sampleManifest ["core"] e)
      (sampleCache.filter fun e => IsSelected sampleManifest ["core"] e) := by
    apply List.monotone_filter_right
    intro e he
    exact decide_eq_true (IsNeeded.isSelected (of_decide_eq_true he))
  have hsame := hsublist.eq_of_length (hall.length_eq.trans hall'.length_eq.symm)
  have hother : (ArchiveEntry.stored (documentPath "core-ui") (documentOf [])).IsDocumentOf
      "core-ui" := ⟨by decide +kernel, rfl⟩
  have hselected : IsSelected sampleManifest ["core"]
      (ArchiveEntry.stored (documentPath "core-ui") (documentOf [])) :=
    ⟨"core-ui", "core", (hneeded _).2 List.mem_cons_self, hother, by decide +kernel⟩
  have hmem : ArchiveEntry.stored (documentPath "core-ui") (documentOf []) ∈
      sampleCache.filter fun e => IsSelected sampleManifest ["core"] e :=
    List.mem_filter.2 ⟨List.mem_cons_of_mem _ (List.mem_cons_of_mem _ List.mem_cons_self),
      decide_eq_true hselected⟩
  rw [← hsame] at hmem
  obtain ⟨library, hlibrary, hdocument⟩ := of_decide_eq_true (List.mem_filter.1 hmem).2
  exact hnot (hother.unique hdocument ▸ hlibrary)

end Library

end TypeCatalog
