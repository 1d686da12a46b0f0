import Mathlib.Data.List.Forall2
import TypeCatalog.Library.Classes
import TypeCatalog.Proofs.Outcome

/-! # What is read of an archive

    To read the wanted files of an archive is to open every entry, in the order of the directory,
    and to take the contents of those that are files with a wanted name. It goes well if each entry
    can be opened and each wanted one can be unpacked, and then it gives their contents, in that
    order. -/

set_option autoImplicit false

namespace TypeCatalog

/-- An entry can be opened: it is where the directory says, is not locked, and is packed in a way
    that is known. -/
def ArchiveEntry.Opens (e : ArchiveEntry) : Prop := ∃ found, e.opened = .ok found

/-- An entry can be opened, and its content unpacked. -/
def ArchiveEntry.Reads (e : ArchiveEntry) : Prop := ∃ bytes, e.content = .ok bytes

theorem ArchiveEntry.opens_of_content {e : ArchiveEntry} {bytes : List UInt8}
    (h : e.content = .ok bytes) : e.Opens := by
  obtain ⟨found, hopened, -⟩ := bind_eq_ok.1 h
  exact ⟨found, hopened⟩

namespace Library

variable {archive : Archive} {wanted : String → Bool} {e : ArchiveEntry}

/-- Whether an entry is a file with a wanted name. -/
def isWanted (wanted : String → Bool) (e : ArchiveEntry) : Bool := e.isFile && wanted e.name

theorem contentOf_eq_ok {bytes : List UInt8} : contentOf e = .ok bytes ↔ e.content = .ok bytes :=
  mapError_eq_ok

theorem contentsOf_cons_of_isWanted (h : isWanted wanted e = true) :
    contentsOf (e :: archive) wanted =
      (contentOf e).bind fun bytes => (contentsOf archive wanted).map (bytes :: ·) := by
  rw [contentsOf]
  exact if_pos h

theorem contentsOf_cons_of_not_isWanted (h : isWanted wanted e = false) :
    contentsOf (e :: archive) wanted =
      (e.opened.mapError entryFailure).bind fun _ => contentsOf archive wanted := by
  rw [contentsOf]
  exact if_neg (by rw [← isWanted, h]; exact Bool.false_ne_true)

/-- The contents that are read are those of the wanted files, one by one and in their order, where
    every entry can be opened. -/
theorem contentsOf_eq_ok_iff {contents : List (List UInt8)} :
    contentsOf archive wanted = .ok contents ↔
      (∀ e ∈ archive, e.Opens) ∧
        List.Forall₂ (fun e bytes => e.content = .ok bytes) (archive.filter (isWanted wanted))
          contents := by
  induction archive generalizing contents with
  | nil =>
    rw [List.filter_nil, List.forall₂_nil_left_iff, contentsOf]
    constructor
    · intro h
      exact ⟨fun e he => absurd he List.not_mem_nil, (Except.ok.inj h).symm⟩
    · rintro ⟨-, rfl⟩
      rfl
  | cons e archive ih =>
    rw [List.forall_mem_cons]
    by_cases h : isWanted wanted e = true
    · rw [contentsOf_cons_of_isWanted h, bind_eq_ok, List.filter_cons_of_pos h]
      constructor
      · rintro ⟨bytes, hbytes, hrest⟩
        obtain ⟨contents', hcontents, rfl⟩ := map_eq_ok.1 hrest
        obtain ⟨hopens, hall⟩ := ih.1 hcontents
        have hbytes := contentOf_eq_ok.1 hbytes
        exact ⟨⟨ArchiveEntry.opens_of_content hbytes, hopens⟩, .cons hbytes hall⟩
      · rintro ⟨⟨-, hopens⟩, hall⟩
        obtain ⟨bytes, contents', hbytes, hrest, rfl⟩ := List.forall₂_cons_left_iff.1 hall
        exact ⟨bytes, contentOf_eq_ok.2 hbytes, map_eq_ok.2 ⟨contents', ih.2 ⟨hopens, hrest⟩, rfl⟩⟩
    · rw [Bool.not_eq_true] at h
      rw [contentsOf_cons_of_not_isWanted h, bind_eq_ok,
        List.filter_cons_of_neg (by rw [h]; exact Bool.false_ne_true)]
      constructor
      · rintro ⟨found, hfound, hrest⟩
        obtain ⟨hopens, hall⟩ := ih.1 hrest
        exact ⟨⟨⟨found, mapError_eq_ok.1 hfound⟩, hopens⟩, hall⟩
      · rintro ⟨⟨⟨found, hfound⟩, hopens⟩, hall⟩
        exact ⟨found, mapError_eq_ok.2 hfound, ih.2 ⟨hopens, hall⟩⟩

theorem exists_contents_iff {entries : List ArchiveEntry} :
    (∃ contents, List.Forall₂ (fun e bytes => e.content = .ok bytes) entries contents) ↔
      ∀ e ∈ entries, e.Reads := by
  constructor
  · rintro ⟨contents, h⟩
    induction h with
    | nil => exact fun e he => absurd he List.not_mem_nil
    | cons hbytes _ ih => exact List.forall_mem_cons.2 ⟨⟨_, hbytes⟩, ih⟩
  · intro h
    induction entries with
    | nil => exact ⟨[], .nil⟩
    | cons e rest ih =>
      obtain ⟨⟨bytes, hbytes⟩, hrest⟩ := List.forall_mem_cons.1 h
      obtain ⟨contents, hcontents⟩ := ih hrest
      exact ⟨bytes :: contents, .cons hbytes hcontents⟩

/-- There are contents to read if every entry can be opened and each wanted file unpacked, and
    only then. -/
theorem exists_contentsOf_iff :
    (∃ contents, contentsOf archive wanted = .ok contents) ↔
      (∀ e ∈ archive, e.Opens) ∧ ∀ e ∈ archive, isWanted wanted e = true → e.Reads := by
  simp only [contentsOf_eq_ok_iff, exists_and_left, exists_contents_iff, List.mem_filter, and_imp]

end Library

end TypeCatalog
