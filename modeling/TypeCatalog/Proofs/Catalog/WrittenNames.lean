import Mathlib.Data.List.Induction
import Mathlib.Data.Nat.Find
import Mathlib.Logic.Function.Iterate
import TypeCatalog.Proofs.Catalog.Reachable
import TypeCatalog.Proofs.Path

/-! # Classes by their written names

    Source text writes dots where a binary name has a slash before the simple name and a dollar sign
    before each nested one. So the names tried for a written one are those with slashes throughout,
    with the last of them turned into a dollar sign, with the last two, and so on. Written with
    dots, all of them are the same, and each has one dollar sign more than the one before.

    * `Catalog.findFrom?_eq_some_iff`: what is found is the entry of the first of these names that
      the catalog has.
    * `Catalog.nestLast_iterate_slashed`: a binary name is among those tried for it if its dollar
      signs come after its slashes.
    * `Catalog.findByName?_sound_complete`: what follows for all names and catalogs. -/

set_option autoImplicit false

namespace TypeCatalog

/-- Without the character that is replaced a text stays as it is. -/
theorem Text.replace_of_notMem {old new : Char} {s : List Char} (h : old ∉ s) :
    replace old new s = s := by
  rw [replace]
  conv => rhs; rw [← List.map_id s]
  apply List.map_congr_left
  intro a ha
  have hne : a ≠ old := by
    rintro rfl
    exact h ha
  rw [if_neg hne, id]

namespace Catalog

/-! ## Section 1: The names that are tried -/

/-- A name with dots in place of all separators. -/
def dots (name : List Char) : List Char := Text.replace '$' '.' (Text.replace '/' '.' name)

/-- A name with slashes in place of its dollar signs. -/
def slashed (name : List Char) : List Char := Text.replace '$' '/' name

section nesting

variable {s : List Char}

/-- The last slash of a name is turned into a dollar sign, and the rest stays. -/
theorem exists_nestLast (h : '/' ∈ s) :
    ∃ front last, s = front ++ '/' :: last ∧ nestLast s = front ++ '$' :: last :=
  ⟨_, _, (Text.beforeLast_append_afterLast h).symm, rfl⟩

theorem dots_nestLast (h : '/' ∈ s) : dots (nestLast s) = dots s := by
  obtain ⟨front, last, hs, hnest⟩ := exists_nestLast h
  rw [hnest, hs]
  simp [dots, Text.replace]

theorem count_dollar_nestLast (h : '/' ∈ s) : (nestLast s).count '$' = s.count '$' + 1 := by
  obtain ⟨front, last, hs, hnest⟩ := exists_nestLast h
  rw [hnest, hs]
  simp
  omega

theorem count_slash_nestLast (h : '/' ∈ s) : (nestLast s).count '/' + 1 = s.count '/' := by
  obtain ⟨front, last, hs, hnest⟩ := exists_nestLast h
  rw [hnest, hs]
  simp
  omega

theorem mem_slash_of_lt {n : Nat} (h : n < s.count '/') : '/' ∈ s :=
  List.count_pos_iff.1 (Nat.zero_lt_of_lt h)

/-- As long as there is a slash left, each name tried has one dollar sign more and one slash less
    than the one before; and all are written in the same way with dots. -/
theorem nestLast_iterate (n : Nat) (h : n ≤ s.count '/') :
    dots (nestLast^[n] s) = dots s ∧ (nestLast^[n] s).count '$' = s.count '$' + n ∧
      (nestLast^[n] s).count '/' + n = s.count '/' := by
  induction n generalizing s with
  | zero => exact ⟨rfl, rfl, rfl⟩
  | succ n ih =>
    have hmem : '/' ∈ s := mem_slash_of_lt h
    have hdollar := count_dollar_nestLast hmem
    have hslash := count_slash_nestLast hmem
    obtain ⟨hdots, hdollar', hslash'⟩ := ih (s := nestLast s) (by omega)
    rw [Function.iterate_succ_apply]
    exact ⟨hdots.trans (dots_nestLast hmem), by omega, by omega⟩

end nesting

/-! ## Section 2: The search -/

/-- The search in at most a number of rounds, each of which looks up one name. None if it takes
    more. -/
def findWithin? (c : Catalog) : Nat → List Char → Option (Option ClassType)
  | 0, _ => none
  | n + 1, name =>
    match c.get? (String.ofList name) with
    | some t => some (some t)
    | none => if '/' ∈ name then c.findWithin? n (nestLast name) else some none

variable {c : Catalog}

/-- The search ends, at the latest after one round for each slash and one more. -/
theorem findWithin?_eq {n : Nat} {s : List Char} (h : s.count '/' < n) :
    c.findWithin? n s = some (c.findFrom? s) := by
  induction n generalizing s with
  | zero => cases h
  | succ n ih =>
    rw [findWithin?, findFrom?]
    cases hget : c.get? (String.ofList s) with
    | some t => rfl
    | none =>
      dsimp only
      by_cases hmem : '/' ∈ s
      · have hless := count_slash_nestLast hmem
        rw [if_pos hmem, if_pos hmem]
        exact ih (by omega)
      · rw [if_neg hmem, if_neg hmem]

/-- The entry of the first name that the catalog has is found. -/
theorem findFrom?_eq_some_iff {s : List Char} {t : ClassType} :
    c.findFrom? s = some t ↔ ∃ n ≤ s.count '/', c.get? (String.ofList (nestLast^[n] s)) = some t ∧
      ∀ m < n, c.get? (String.ofList (nestLast^[m] s)) = none := by
  fun_induction findFrom? c s with
  | case1 s u hget =>
    constructor
    · intro h
      cases h
      exact ⟨0, Nat.zero_le _, hget, fun m hm => absurd hm (Nat.not_lt_zero m)⟩
    · rintro ⟨n, -, hn, hbefore⟩
      cases n with
      | zero =>
        rw [Function.iterate_zero, id_eq, hget] at hn
        exact hn
      | succ n =>
        have hfirst := hbefore 0 (Nat.succ_pos n)
        rw [Function.iterate_zero, id_eq, hget] at hfirst
        cases hfirst
  | case2 s hget hmem ih =>
    -- The names tried after the first are those tried from the next one on.
    have hless := count_slash_nestLast hmem
    rw [ih]
    constructor
    · intro ⟨n, hn, hfound, hbefore⟩
      refine ⟨n + 1, by omega, hfound, ?_⟩
      intro m hm
      cases m with
      | zero => exact hget
      | succ m => exact hbefore m (Nat.lt_of_succ_lt_succ hm)
    · intro ⟨n, hn, hfound, hbefore⟩
      cases n with
      | zero =>
        rw [Function.iterate_zero, id_eq, hget] at hfound
        cases hfound
      | succ n => exact ⟨n, by omega, hfound, fun m hm => hbefore (m + 1) (Nat.succ_lt_succ hm)⟩
  | case3 s hget hmem =>
    constructor
    · intro h
      cases h
    · intro ⟨n, hn, hfound, _⟩
      rw [List.count_eq_zero.2 hmem, Nat.le_zero] at hn
      rw [hn, Function.iterate_zero, id_eq, hget] at hfound
      cases hfound

/-- Where one of the names tried is in the catalog, that or one before it is found. -/
theorem exists_findFrom? {s : List Char} {t : ClassType} {n : Nat} (hn : n ≤ s.count '/')
    (hget : c.get? (String.ofList (nestLast^[n] s)) = some t) :
    ∃ m ≤ n, ∃ u, c.findFrom? s = some u ∧ c.get? (String.ofList (nestLast^[m] s)) = some u := by
  have hexists : ∃ m, (c.get? (String.ofList (nestLast^[m] s))).isSome := ⟨n, by rw [hget]; rfl⟩
  -- The first of those that are in the catalog.
  obtain ⟨u, hu⟩ := Option.isSome_iff_exists.1 (Nat.find_spec hexists)
  have hle : Nat.find hexists ≤ n := Nat.find_min' hexists (by rw [hget]; rfl)
  refine ⟨Nat.find hexists, hle, u, ?_, hu⟩
  refine findFrom?_eq_some_iff.2 ⟨_, Nat.le_trans hle hn, hu, ?_⟩
  intro m hm
  exact Option.not_isSome_iff_eq_none.1 (Nat.find_min hexists hm)

/-! ## Section 3: Binary names among those tried -/

theorem count_slash_slashed (s : List Char) :
    (slashed s).count '/' = s.count '/' + s.count '$' := by
  induction s with
  | nil => rfl
  | cons a s ih =>
    by_cases ha : a = '$'
    · subst ha
      simp [slashed, Text.replace] at ih ⊢
      omega
    · have hother : slashed (a :: s) = a :: slashed s := by simp [slashed, Text.replace, ha]
      rw [hother, List.count_cons, List.count_cons, List.count_cons, ih]
      simp [ha]
      omega

theorem count_dollar_slashed (s : List Char) : (slashed s).count '$' = 0 := by
  rw [List.count_eq_zero]
  intro hmem
  obtain ⟨a, -, ha⟩ := List.mem_map.1 hmem
  split at ha
  · cases ha
  · next hne => exact hne ha

/-- Written with dots, a name without dots is looked up with slashes throughout first. -/
theorem replace_dots {s : List Char} (h : '.' ∉ s) : Text.replace '.' '/' (dots s) = slashed s := by
  simp only [dots, slashed, Text.replace, List.map_map]
  apply List.map_congr_left
  intro a ha
  have hdot : a ≠ '.' := fun heq => h (heq ▸ ha)
  by_cases hslash : a = '/'
  · simp [hslash]
  · by_cases hdollar : a = '$'
    · simp [hdollar]
    · simp [hslash, hdollar, hdot]

theorem dots_replace (s : List Char) : dots (Text.replace '.' '/' s) = dots s := by
  simp only [dots, Text.replace, List.map_map]
  apply List.map_congr_left
  intro a _
  by_cases hdot : a = '.'
  · simp [hdot]
  · simp [hdot]

theorem dots_slashed (s : List Char) : dots (slashed s) = dots s := by
  simp only [dots, slashed, Text.replace, List.map_map]
  apply List.map_congr_left
  intro a _
  by_cases hdollar : a = '$'
  · simp [hdollar]
  · simp [hdollar]

/-- A name whose dollar signs come after its slashes comes back after as many rounds as it has
    dollar signs. The induction is on the name from its end; `done` is what has come back. -/
theorem nestLast_iterate_slashed {s : List Char} (hs : '$' ∉ Text.beforeLast '/' s)
    (done : List Char) (hdone : '/' ∉ done) :
    nestLast^[s.count '$'] (slashed s ++ done) = s ++ done := by
  induction s using List.reverseRecOn generalizing done with
  | nil => rfl
  | append_singleton s a ih =>
    have hconcat : slashed (s ++ [a]) = slashed s ++ slashed [a] := List.map_append
    by_cases hslash : a = '/'
    · -- Before the last slash there is no dollar sign, so nothing had to be turned.
      subst hslash
      rw [Text.beforeLast_append_cons s List.not_mem_nil] at hs
      have hnone : '$' ∉ s ++ ['/'] := by simp [hs]
      rw [slashed, Text.replace_of_notMem hnone, List.count_eq_zero.2 hnone]
      rfl
    · have hfront : '$' ∉ Text.beforeLast '/' s := by
        have heq : Text.beforeLast '/' (s ++ [a]) = Text.beforeLast '/' s := by
          simp [Text.beforeLast, hslash]
        rwa [heq] at hs
      by_cases hdollar : a = '$'
      · subst hdollar
        have hnest : nestLast (slashed s ++ '/' :: done) = slashed s ++ '$' :: done := by
          rw [nestLast, Text.beforeLast_append_cons _ hdone, Text.afterLast_append_cons _ hdone]
        have hcount : (s ++ ['$']).count '$' = s.count '$' + 1 := by simp
        rw [hcount, Function.iterate_succ_apply, hconcat, List.append_assoc]
        show nestLast^[s.count '$'] (nestLast (slashed s ++ '/' :: done)) = _
        rw [hnest, ih hfront ('$' :: done) (by simp [hdone]), List.append_assoc]
        rfl
      · have hcount : (s ++ [a]).count '$' = s.count '$' := by
          simp [hdollar]
        have hsingle : slashed [a] = [a] := by simp [slashed, Text.replace, hdollar]
        have hrest : '/' ∉ a :: done := by simp [hdone, Ne.symm hslash]
        rw [hcount, hconcat, hsingle, List.append_assoc, List.append_assoc]
        exact ih hfront (a :: done) hrest

/-! ## Section 4: All names -/

theorem fullyDotted_eq (name : String) :
    (BinaryName.mk name).fullyDotted = String.ofList (dots name.toList) := rfl

theorem fullyDotted_eq_iff {name name' : String} :
    (BinaryName.mk name).fullyDotted = (BinaryName.mk name').fullyDotted ↔
      dots name.toList = dots name'.toList := by
  rw [fullyDotted_eq, fullyDotted_eq, ← String.toList_inj, String.toList_ofList,
    String.toList_ofList]

/-- The search for a written name ends after one round for each separator and one more. What it
    finds is in the catalog under a key that is written in the same way with dots, and under no
    other. A short signature without dots finds its own entry. So does a key written with dots if no
    dollar sign stands before its last slash, unless the entry of another key that is written in
    the same way and has fewer dollar signs is found. -/
theorem findByName?_sound_complete (hc : c.Reachable) :
    (∀ name n, (Text.replace '.' '/' name.toList).count '/' < n →
      c.findWithin? n (Text.replace '.' '/' name.toList) = some (c.findByName? name)) ∧
    (∀ name t, c.findByName? name = some t → (∃ key, c.get? key = some t) ∧
      ∀ key, c.get? key = some t →
        (BinaryName.mk key).fullyDotted = (BinaryName.mk name).fullyDotted) ∧
    (∀ key t, c.get? key = some t → '.' ∉ key.toList → c.findByName? key = some t) ∧
    (∀ key t, c.get? key = some t → '.' ∉ key.toList → '$' ∉ Text.beforeLast '/' key.toList →
      ∃ found, c.findByName? (BinaryName.mk key).fullyDotted = some found ∧
        (found = t ∨ ∃ key', c.get? key' = some found ∧
          (BinaryName.mk key').fullyDotted = (BinaryName.mk key).fullyDotted ∧
          key'.toList.count '$' < key.toList.count '$')) := by
  refine ⟨fun name n => findWithin?_eq, ?_, ?_, ?_⟩
  · intro name t hfound
    obtain ⟨n, hn, hget, -⟩ := findFrom?_eq_some_iff.1 hfound
    refine ⟨⟨_, hget⟩, ?_⟩
    intro key hkey
    -- The class type stands under its own short signature only.
    have hsame : key = String.ofList (nestLast^[n] (Text.replace '.' '/' name.toList)) :=
      (hc.keyed key t hkey).symm.trans (hc.keyed _ t hget)
    rw [fullyDotted_eq_iff, hsame, String.toList_ofList, (nestLast_iterate n hn).1, dots_replace]
  · intro key t hget hdot
    have hstart : Text.replace '.' '/' key.toList = key.toList := Text.replace_of_notMem hdot
    refine findFrom?_eq_some_iff.2 ⟨0, Nat.zero_le _, ?_, fun m hm => absurd hm (Nat.not_lt_zero m)⟩
    rw [Function.iterate_zero, id_eq, hstart, String.ofList_toList]
    exact hget
  · intro key t hget hdot hdollar
    have hstart : Text.replace '.' '/' (BinaryName.mk key).fullyDotted.toList =
        slashed key.toList := by
      rw [fullyDotted_eq, String.toList_ofList, replace_dots hdot]
    have hback : nestLast^[key.toList.count '$'] (slashed key.toList) = key.toList := by
      simpa using nestLast_iterate_slashed hdollar [] List.not_mem_nil
    have hle : key.toList.count '$' ≤ (slashed key.toList).count '/' := by
      rw [count_slash_slashed]
      exact Nat.le_add_left _ _
    obtain ⟨m, hm, found, hfound, hget'⟩ :=
      exists_findFrom? hle (by rw [hback, String.ofList_toList]; exact hget)
    refine ⟨found, by rw [findByName?, hstart, hfound], ?_⟩
    rcases Nat.lt_or_eq_of_le hm with hlt | heq
    · -- Another name was tried before, with fewer dollar signs.
      obtain ⟨hdots, hcount, -⟩ := nestLast_iterate m (Nat.le_trans hm hle)
      refine .inr ⟨_, hget', ?_, ?_⟩
      · rw [fullyDotted_eq_iff, String.toList_ofList, hdots, dots_slashed]
      · rw [String.toList_ofList, hcount, count_dollar_slashed, Nat.zero_add]
        exact hlt
    · rw [heq, hback, String.ofList_toList, hget] at hget'
      exact .inl (Option.some.inj hget').symm

/-- A nested class is found under the name that source text writes. -/
theorem findByName?_sound_complete_entry :
    let entry : ClassDeclaration := ⟨⟨"java/util/Map$Entry"⟩, ⟨0⟩, "", [], [], [], [], []⟩
    let c := Catalog.empty.insertDeclaration entry
    c.Reachable ∧ c.get? "java/util/Map$Entry" = some (.raw entry) ∧
      c.findByName? "java.util.Map.Entry" = some (.raw entry) := by
  intro entry c
  have hc : c.Reachable := .insertDeclaration entry .empty
  have hget : c.get? "java/util/Map$Entry" = some (.raw entry) := by
    simp [c, Catalog.get?_insertDeclaration, entry]
  have honly : ∀ key t, c.get? key = some t → key = "java/util/Map$Entry" := by
    intro key t hkey
    rw [Catalog.get?_insertDeclaration] at hkey
    by_cases heq : entry.name.short = key
    · exact heq.symm
    · rw [if_neg heq, Catalog.get?_empty] at hkey
      cases hkey
  obtain ⟨-, -, -, hdotted⟩ := findByName?_sound_complete hc
  obtain ⟨found, hfound, rfl | ⟨key, hkey, -, hless⟩⟩ := hdotted _ _ hget (by decide) (by decide)
  · have hname : (BinaryName.mk "java/util/Map$Entry").fullyDotted = "java.util.Map.Entry" := by
      decide
    rw [hname] at hfound
    exact ⟨hc, hget, hfound⟩
  · rw [honly key found hkey] at hless
    exact absurd hless (Nat.lt_irrefl _)

end Catalog

end TypeCatalog
