import TypeCatalog.Proofs.Outcome
import TypeCatalog.Storage.Disk

/-! # Reading back what was written

    Bytes that were put into a file are read back from its path. A path is walked when it is written
    and once more when it is read, so the second walk has to end where the first one did: the file
    that is new then is in the place of no directory, and all directories on the way are still
    there. -/

set_option autoImplicit false

namespace TypeCatalog.Disk

/-! ## Section 1: A disk with other bytes at a place -/

section put

variable (d : Disk) (place : Place) (bytes : List UInt8)

theorem file?_put_self : (d.put place bytes).file? place = some bytes := by
  simp [file?, put]

theorem file?_put_ne {other : Place} (h : other ≠ place) :
    (d.put place bytes).file? other = d.file? other := by
  have hnew : ¬(place == other) = true := fun heq => h (beq_iff_eq.1 heq).symm
  have hfind : (d.put place bytes).files.find? (fun entry => entry.1 == other) =
      d.files.find? fun entry => entry.1 == other := by
    show ((place, bytes) :: d.files.filter fun entry => entry.1 != place).find? _ = _
    rw [List.find?_cons_of_neg (by exact hnew), List.find?_filter]
    congr 1
    funext entry
    by_cases hentry : entry.1 = other
    · simp [hentry, h]
    · simp [hentry]
  rw [file?, file?, hfind]

/-- No place of a file is lost. -/
theorem mem_places_put {other : Place} (h : other ∈ d.files.map Prod.fst) :
    other ∈ (d.put place bytes).files.map Prod.fst := by
  obtain ⟨entry, hentry, rfl⟩ := List.mem_map.1 h
  by_cases hplace : entry.1 = place
  · rw [hplace]
    exact List.mem_cons_self
  · refine List.mem_cons_of_mem _ (List.mem_map.2 ⟨entry, ?_, rfl⟩)
    exact List.mem_filter.2 ⟨hentry, bne_iff_ne.2 hplace⟩

variable {d place}

/-- A directory stays one if the new bytes are not in its place. -/
theorem isDirectory_put {other : Place} (hplace : d.isDirectory place = false)
    (h : d.isDirectory other = true) : (d.put place bytes).isDirectory other = true := by
  have hne : other ≠ place := by
    intro heq
    rw [heq, hplace] at h
    cases h
  unfold isDirectory at h ⊢
  rw [file?_put_ne d place bytes hne]
  rcases Bool.or_eq_true_iff.1 h with habove | hbelow
  · rw [habove, Bool.true_or]
  · obtain ⟨p, hp, hprefix⟩ := List.any_eq_true.1 hbelow
    have hp' : p ∈ (d.put place bytes).directories ++ (d.put place bytes).files.map Prod.fst := by
      rcases List.mem_append.1 hp with hmade | hfile
      · exact List.mem_append_left _ hmade
      · exact List.mem_append_right _ (mem_places_put d place bytes hfile)
    rw [List.any_eq_true.2 ⟨p, hp', hprefix⟩, Bool.or_true]

/-- A walk that leads somewhere leads there with the new bytes as well. The induction is on the
    steps, every one of which but the last leads to a directory. -/
theorem walk_put {start target : Place} {steps : Place} (hplace : d.isDirectory place = false)
    (h : d.walk start steps = .ok target) :
    (d.put place bytes).walk start steps = .ok target := by
  induction steps generalizing start with
  | nil => exact h
  | cons name rest ih =>
    unfold walk at h ⊢
    by_cases hdot : name = ['.']
    · rw [if_pos hdot] at h ⊢
      exact ih h
    rw [if_neg hdot] at h ⊢
    by_cases hout : name = stepOut
    · rw [if_pos hout] at h ⊢
      exact ih h
    rw [if_neg hout] at h ⊢
    by_cases hlong : longestName < Text.Utf8.size name
    · rw [if_pos hlong] at h
      cases h
    rw [if_neg hlong] at h ⊢
    by_cases hstep : (rest.isEmpty || d.isDirectory (start ++ [name])) = true
    · rw [if_pos hstep] at h
      have hstep' : (rest.isEmpty || (d.put place bytes).isDirectory (start ++ [name])) = true := by
        rcases Bool.or_eq_true_iff.1 hstep with hlast | hdirectory
        · rw [hlast, Bool.true_or]
        · rw [isDirectory_put bytes hplace hdirectory, Bool.or_true]
      rw [if_pos hstep']
      exact ih h
    · rw [if_neg hstep] at h
      cases h

end put

/-! ## Section 2: Files by their paths -/

/-- Where a file is written: at the end of its path, which is in the place of no directory. -/
theorem placeToWrite_eq_ok {d : Disk} {path : String} {place : Place}
    (h : d.placeToWrite path = .ok place) :
    checkPath path = .ok () ∧ path.endsWith "/" = false ∧
      d.walk [] (Path.steps path) = .ok place ∧ d.isDirectory place = false := by
  unfold placeToWrite at h
  obtain ⟨⟨⟩, hcheck, h⟩ := bind_eq_ok.1 h
  by_cases hend : path.endsWith "/" = true
  · rw [if_pos hend] at h
    obtain ⟨_, -, h⟩ := bind_eq_ok.1 h
    cases h
  · rw [if_neg hend] at h
    obtain ⟨found, hwalk, h⟩ := bind_eq_ok.1 h
    by_cases hdirectory : d.isDirectory found = true
    · rw [if_pos hdirectory] at h
      cases h
    · rw [if_neg hdirectory] at h
      cases h
      exact ⟨hcheck, Bool.eq_false_iff.2 hend, hwalk, Bool.eq_false_iff.2 hdirectory⟩

/-- Bytes are stored in a place that the path is written to, on a disk that may have more
    directories than before. -/
theorem exists_of_store_eq_ok {d d' : Disk} {path : String} {bytes : List UInt8}
    (h : d.store path bytes = (.ok (), d')) :
    ∃ (made : Disk) (place : Place),
      made.placeToWrite path = .ok place ∧ d' = made.put place bytes := by
  unfold store at h
  split at h
  · cases h
  split at h
  · cases h
  next made _ =>
    split at h
    · cases h
    next place hplace =>
      cases h
      exact ⟨made, place, hplace, rfl⟩

/-- What was stored is what is read. -/
theorem contentAt_of_store {d d' : Disk} {path : String} {bytes : List UInt8}
    (h : d.store path bytes = (.ok (), d')) : d'.contentAt path = .ok bytes := by
  obtain ⟨made, place, hplace, rfl⟩ := exists_of_store_eq_ok h
  obtain ⟨hcheck, hend, hwalk, hdirectory⟩ := placeToWrite_eq_ok hplace
  have hagain : (made.put place bytes).walk [] (Path.steps path) = .ok place :=
    walk_put bytes hdirectory hwalk
  have hfile : (made.put place bytes).file? place = some bytes := file?_put_self made place bytes
  unfold contentAt
  refine bind_eq_ok.2 ⟨(), hcheck, bind_eq_ok.2 ⟨place, hagain, ?_⟩⟩
  rw [hfile, hend]
  rfl

end TypeCatalog.Disk
