import TypeCatalog.Path

/-! # Suffixes and extensions of paths

    Whether a path ends like `.zip` and which extension its file has are two questions: a separator
    at the end of the path and a name that starts with its only dot tell them apart. Still, a path
    that ends with a dot and an extension has that extension or none. -/

set_option autoImplicit false

namespace TypeCatalog.Text

/-! ## Section 1: Around the last separator -/

variable {separator : Char}

theorem bne_of_notMem {s : List Char} (h : separator ∉ s) :
    ∀ c ∈ s.reverse, (c != separator) = true := by
  intro c hc
  rw [bne_iff_ne]
  rintro rfl
  exact h (List.mem_reverse.1 hc)

theorem afterLast_append_cons (a : List Char) {b : List Char} (h : separator ∉ b) :
    afterLast separator (a ++ separator :: b) = b := by
  have hreverse : (a ++ separator :: b).reverse = b.reverse ++ separator :: a.reverse := by simp
  unfold afterLast
  rw [hreverse, List.takeWhile_append_of_pos (bne_of_notMem h)]
  simp

theorem beforeLast_append_cons (a : List Char) {b : List Char} (h : separator ∉ b) :
    beforeLast separator (a ++ separator :: b) = a := by
  have hreverse : (a ++ separator :: b).reverse = b.reverse ++ separator :: a.reverse := by simp
  unfold beforeLast
  rw [hreverse, List.dropWhile_append_of_pos (bne_of_notMem h)]
  simp

theorem segments_of_notMem {s : List Char} (h : separator ∉ s) : segments separator s = [s] := by
  induction s with
  | nil => rfl
  | cons c s ih =>
    rw [List.mem_cons, not_or] at h
    rw [segments, if_neg (fun hc => h.1 hc.symm), ih h.2]

/-- What is added after the last separator goes to the last segment. -/
theorem exists_segments_append (a : List Char) {b : List Char} (h : separator ∉ b) :
    ∃ front last, segments separator (a ++ b) = front ++ [last ++ b] := by
  induction a with
  | nil => exact ⟨[], [], segments_of_notMem h⟩
  | cons c a ih =>
    obtain ⟨front, last, hsegments⟩ := ih
    rw [List.cons_append, segments, hsegments]
    by_cases hc : c = separator
    · rw [if_pos hc]
      exact ⟨[] :: front, last, rfl⟩
    · rw [if_neg hc]
      cases front with
      | nil => exact ⟨[], c :: last, rfl⟩
      | cons first front => exact ⟨(c :: first) :: front, last, rfl⟩

/-- What comes before the small letters is the small form of nothing else. -/
theorem eq_of_toLower_eq {c d : Char} (hd : d.toNat < 0x61) (h : c.toLower = d) : c = d := by
  unfold Char.toLower at h
  split at h
  · next hcapital =>
    have hlow : 0x41 ≤ c.toNat := UInt32.le_iff_toNat_le.1 hcapital.1
    have hhigh : c.toNat ≤ 0x5A := UInt32.le_iff_toNat_le.1 hcapital.2
    have hnumber := congrArg Char.toNat h
    simp at hnumber
    omega
  · exact h

theorem toList_toLower (s : String) : s.toLower.toList = s.toList.map Char.toLower :=
  String.toList_map

end TypeCatalog.Text

namespace TypeCatalog.Path

open TypeCatalog.Text

/-! ## Section 2: Extensions -/

/-- The last component of a path that ends with a name ends with that name. -/
theorem exists_getLast?_components {path : String} {a b : List Char} (hpath : path.toList = a ++ b)
    (hslash : '/' ∉ b) (hlong : 2 ≤ b.length) :
    ∃ last, (components path).getLast? = some (last ++ b) := by
  obtain ⟨front, last, hsegments⟩ := exists_segments_append a hslash
  have hlength : 2 ≤ (last ++ b).length := by
    rw [List.length_append]
    omega
  have hkept : [last ++ b].filter (fun s => !s.isEmpty && s != ['.']) = [last ++ b] := by
    generalize last ++ b = name at hlength ⊢
    match name, hlength with
    | c :: d :: rest, _ => simp
  refine ⟨last, ?_⟩
  unfold components
  rw [hpath, hsegments, List.filter_append, hkept, List.getLast?_concat]

theorem hasSuffix_iff {suffix path : String} :
    hasSuffix suffix path = true ↔ suffix.toList <:+ path.toList.map Char.toLower := by
  rw [hasSuffix, String.endsWith_eq_endsWith_toSlice, String.Slice.endsWith_string_iff,
    String.copy_toSlice, toList_toLower]

/-- The extension of a name that ends with a dot and one. -/
theorem nameExtension?_append_cons (a : List Char) {b : List Char} (h : '.' ∉ b) {found : String}
    (hfound : nameExtension? (a ++ '.' :: b) = some found) : found = String.ofList b := by
  unfold nameExtension? at hfound
  rw [beforeLast_append_cons a h, afterLast_append_cons a h] at hfound
  cases a with
  | nil => cases hfound
  | cons c a => exact (Option.some.inj hfound).symm

/-- A path that ends with a dot and an extension, in whatever case, has no other extension. -/
theorem toLower_eq_of_hasSuffix {extension path found : String} (hdot : '.' ∉ extension.toList)
    (hslash : '/' ∉ extension.toList) (hlong : extension ≠ "")
    (h : hasSuffix ("." ++ extension) path = true) (hfound : extension? path = some found) :
    found.toLower = extension := by
  have hsuffix : ("." ++ extension).toList = '.' :: extension.toList := String.toList_append
  obtain ⟨front, hfront⟩ := hasSuffix_iff.1 h
  rw [hsuffix] at hfront
  obtain ⟨a, rest, hpath, -, hrest⟩ := List.append_eq_map_iff.1 hfront
  obtain ⟨c, b, hcons, hc, hb⟩ := List.map_eq_cons_iff.1 hrest
  have hc : c = '.' := eq_of_toLower_eq (by decide) hc
  subst hcons hc
  -- Neither a dot nor a separator comes from making letters small.
  have hdot' : '.' ∉ b := by
    intro hmem
    exact hdot (hb ▸ List.mem_map_of_mem hmem)
  have hslash' : '/' ∉ '.' :: b := by
    intro hmem
    rcases List.mem_cons.1 hmem with heq | hmem
    · cases heq
    · exact hslash (hb ▸ List.mem_map_of_mem hmem)
  have hnonempty : b ≠ [] := by
    rintro rfl
    exact hlong (String.toList_eq_nil_iff.1 hb.symm)
  have hlength : 2 ≤ ('.' :: b).length := Nat.succ_le_succ (List.length_pos_iff.2 hnonempty)
  obtain ⟨last, hlast⟩ := exists_getLast?_components hpath hslash' hlength
  unfold extension? at hfound
  rw [hlast, Option.bind_eq_bind, Option.bind_some] at hfound
  split at hfound
  · cases hfound
  · rw [nameExtension?_append_cons last hdot' hfound, ← String.toList_inj, toList_toLower,
      String.toList_ofList, hb]

end TypeCatalog.Path
