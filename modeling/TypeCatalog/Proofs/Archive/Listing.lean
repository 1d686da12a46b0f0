import TypeCatalog.Archive.Format

/-! # Entries of one name

    A directory may list several entries of one name. When an archive is read, each of them takes
    the place of the one before. The listing of an archive has them all, one by one, as they stand
    in the directory. So to read an archive is to put the entries of its listing together, and where
    these have different names the archive is its listing. -/

set_option autoImplicit false

namespace TypeCatalog.Archive

/-! ## Section 1: Listings -/

/-- The entries that a directory lists from an offset on. -/
def listFrom (data : Array UInt8) (start offset : Nat) : Nat → Option (List ArchiveEntry)
  | 0 => some []
  | count + 1 =>
    match listedAt data offset with
    | none => none
    | some (l, next) => (listFrom data start next count).map (l.entry data start :: ·)

/-- The entries of the archive whose end record is the last one in front of an offset that fits. -/
def listBefore (data : Array UInt8) : Nat → Option (List ArchiveEntry)
  | 0 => none
  | place + 1 =>
    match (placeAt data place).bind fun d =>
      listFrom data d.start (d.offset + d.start) d.count with
    | some entries => some entries
    | none => listBefore data place

/-- The entries that stand in the directory of an archive, in its order. -/
def listing (bytes : List UInt8) : Option (List ArchiveEntry) :=
  listBefore bytes.toArray bytes.toArray.size

/-- The archive of some entries, where the last one of a name counts. -/
def merged (entries : List ArchiveEntry) : Archive := entries.foldl put []

/-! ## Section 2: Reading is merging -/

theorem entriesFrom_eq (data : Array UInt8) (start offset count : Nat) (found : Archive) :
    entriesFrom data start offset found count =
      (listFrom data start offset count).map fun entries => entries.foldl put found := by
  induction count generalizing offset found with
  | zero => rfl
  | succ count ih =>
    unfold entriesFrom listFrom
    cases listedAt data offset with
    | none => rfl
    | some l =>
      obtain ⟨l, next⟩ := l
      simp only [ih, Option.map_map]
      rfl

theorem readBefore_eq (data : Array UInt8) (place : Nat) :
    readBefore data place = (listBefore data place).map merged := by
  induction place with
  | zero => rfl
  | succ place ih =>
    have hplace : ((placeAt data place).bind fun d =>
        entriesFrom data d.start (d.offset + d.start) [] d.count) =
        ((placeAt data place).bind fun d =>
          listFrom data d.start (d.offset + d.start) d.count).map merged := by
      rw [Option.map_bind]
      congr 1
      funext d
      exact entriesFrom_eq data d.start _ d.count []
    rw [readBefore, listBefore, hplace]
    cases (placeAt data place).bind fun d =>
      listFrom data d.start (d.offset + d.start) d.count with
    | none => exact ih
    | some entries => rfl

/-- To read an archive is to merge the entries that stand in its directory. -/
theorem read_eq (bytes : List UInt8) : read bytes = (listing bytes).map merged :=
  readBefore_eq bytes.toArray bytes.toArray.size

/-! ## Section 3: Different names -/

theorem put_of_notMem {found : Archive} {e : ArchiveEntry}
    (h : e.name ∉ found.map ArchiveEntry.name) : put found e = found ++ [e] := by
  have hany : (List.any found fun e' => e'.name == e.name) = false := by
    rw [List.any_eq_false]
    intro e' he' heq
    exact h (List.mem_map.2 ⟨e', he', beq_iff_eq.1 heq⟩)
  rw [put, hany, if_neg Bool.false_ne_true]

/-- Each entry comes after all that was found before it. -/
theorem foldl_put {entries : List ArchiveEntry} {found : Archive}
    (h : ((found ++ entries).map ArchiveEntry.name).Nodup) :
    entries.foldl put found = found ++ entries := by
  induction entries generalizing found with
  | nil => exact (List.append_nil found).symm
  | cons e entries ih =>
    have hnew : e.name ∉ found.map ArchiveEntry.name := by
      intro hmem
      rw [List.map_append, List.nodup_append] at h
      exact h.2.2 _ hmem _ List.mem_cons_self rfl
    rw [List.foldl_cons, put_of_notMem hnew, ih (by rwa [List.append_assoc]), List.append_assoc,
      List.singleton_append]

/-- Entries of different names are an archive as they are. -/
theorem merged_of_nodup {entries : List ArchiveEntry}
    (h : (entries.map ArchiveEntry.name).Nodup) : merged entries = entries := foldl_put h

theorem read_of_listing {bytes : List UInt8} {entries : List ArchiveEntry}
    (hlisting : listing bytes = some entries) (h : (entries.map ArchiveEntry.name).Nodup) :
    read bytes = some entries := by
  rw [read_eq, hlisting, Option.map_some, merged_of_nodup h]

end TypeCatalog.Archive
