import Mathlib
import TypeCatalog.Proofs.Settings.Places
import TypeCatalog.Proofs.Settings.Variables
import TypeCatalog.Proofs.Toml.Spelling

/-! # References in settings

    References to variables are replaced in the text of a settings file before it is read. A value
    whose characters stand for themselves between quotation marks comes into the setting as it is,
    and whatever it is, all other settings are what they would be without the reference. -/

set_option autoImplicit false

namespace TypeCatalog.SettingsFile

open Settings (ClosesReferences expandChars)
open Toml (Spells FileAt isPlain isLiteral quoted)

/-! ## Section 1: Another text in a settings file -/

/-- Between two parts of a text, a text between quotation marks is a value: some text there makes it
    a settings file. -/
def HasTextBetween (before after : List Char) : Prop :=
  ∃ u w file, Spells u after w ∧ FileAt u ⟨[], []⟩ (Toml.withoutMark (before ++ u)) ∧
    ofText (String.ofList (before ++ u)) = .ok file

theorem withoutMark_append {before u : List Char} (hu : u.head? = some '"') :
    Toml.withoutMark (before ++ u) = Toml.withoutMark before ++ u := by
  obtain ⟨r, rfl⟩ := List.head?_eq_some_iff.1 hu
  cases before with
  | nil => rfl
  | cons c before =>
    by_cases hc : c = '\uFEFF'
    · subst hc
      rfl
    · simp [Toml.withoutMark, hc]

theorem parse_eq_ok_iff {s : List Char} {members : Toml.Members} :
    Toml.parse (String.ofList s) = .ok members ↔
      Toml.lines ⟨[], []⟩ (Toml.withoutMark s) = .ok members := by
  rw [Toml.parse, String.toList_ofList]
  exact mapError_eq_ok

theorem ofText_eq_ok_iff {s : List Char} {file : SettingsFile} :
    ofText (String.ofList s) = .ok file ↔ ∃ members,
      Toml.lines ⟨[], []⟩ (Toml.withoutMark s) = .ok members ∧ ofMembers? members = some file := by
  simp only [← parse_eq_ok_iff]
  unfold ofText
  cases Toml.parse (String.ofList s) with
  | error line => simp
  | ok members =>
    cases hmembers : ofMembers? members with
    | none => simp [hmembers]
    | some found => simp [hmembers]

/-- Whatever text is written, it is the one in a place of what the file says, or nowhere in it. -/
theorem HasTextBetween.exists_place {before after : List Char} (h : HasTextBetween before after) :
    ∃ file place, (place ≠ .elsewhere → ∃ t, text file place = some t) ∧
      ∀ u w, Spells u after w → ofText (String.ofList (before ++ u)) = .ok (file.put place w) := by
  obtain ⟨u, w, file, hu, hat, hfile⟩ := h
  obtain ⟨members, hlines, hmembers⟩ := ofText_eq_ok_iff.1 hfile
  obtain ⟨front, name, p, hfront, hplace, hput⟩ := hat.carries hu hlines
  rw [withoutMark_append hu.quote] at hfront
  obtain rfl := List.append_cancel_right hfront
  obtain ⟨place, hsome, hbecomes⟩ := becomes hplace hmembers
  refine ⟨file, place, fun hne => Option.isSome_iff_exists.1 (hsome hne), fun u' w' hu' => ?_⟩
  apply ofText_eq_ok_iff.2
  rw [withoutMark_append hu'.quote]
  exact ⟨_, hput u' w' hu', hbecomes w'⟩

/-! ## Section 2: The value of a variable -/

section reference

variable {value : String → Option String} {name v before a b after : String}

theorem parse_ofList (s : List Char) :
    parse value (String.ofList s) = ofText (String.ofList (expandChars value s)) := by
  rw [parse, Settings.expandVariables_ofList]

/-- The value of a variable stands between quotation marks like a text that is written there. -/
theorem expandChars_quoted_reference (hvalue : value name = some v) (hne : name ≠ "")
    (hname : '\x7d' ∉ name.toList) (ha : '$' ∉ a.toList) (hb : '$' ∉ b.toList)
    (after : List Char) :
    expandChars value ('"' :: (a.toList ++ '$' :: '\x7b' :: (name.toList ++ '\x7d' ::
        (b.toList ++ '"' :: after)))) =
      '"' :: (a.toList ++ v.toList ++ b.toList ++ '"' :: expandChars value after) := by
  have hfront : '$' ∉ '"' :: a.toList := by simpa using ha
  have hback : '$' ∉ b.toList ++ ['"'] := by simpa using hb
  have hpieces : expandChars value _ = _ := Settings.expandChars_plain hfront
    ('$' :: '\x7b' :: (name.toList ++ '\x7d' :: (b.toList ++ ['"'] ++ after)))
  rw [Settings.expandChars_reference hne hname hvalue, Settings.expandChars_plain hback] at hpieces
  simpa using hpieces

/-- A setting in which a reference to a variable stands has the value of that variable in the place
    of the reference, if the characters of the value stand for themselves, and all other settings
    are the same as with any text in the place of that value. -/
theorem parse_reference
    (hvalue : value name = some v) (hne : name ≠ "") (hname : '\x7d' ∉ name.toList)
    (ha : ∀ c ∈ a.toList, isLiteral c = true) (hb : ∀ c ∈ b.toList, isLiteral c = true)
    (hv : ∀ c ∈ v.toList, isPlain c = true)
    (hbefore : ClosesReferences before.toList)
    (hfile : HasTextBetween (expandChars value before.toList) (expandChars value after.toList)) :
    ∃ (file : SettingsFile) (place : Place),
      (place ≠ .elsewhere → ∀ w, (file.put place w).text place = some w) ∧
      parse value (before ++ "\"" ++ a ++ "$\x7b" ++ name ++ "\x7d" ++ b ++ "\"" ++ after) =
        .ok (file.put place (a ++ v ++ b)) ∧
      ∀ w, parse value (before ++ String.ofList (quoted w) ++ after) = .ok (file.put place w) := by
  have hends : (expandChars value after.toList).head? ≠ some '"' := by
    obtain ⟨u, w, file, hu, -⟩ := hfile
    exact hu.ends
  obtain ⟨file, place, htext, hparse⟩ := hfile.exists_place
  refine ⟨file, place, fun hne w => ?_, ?_, fun w => ?_⟩
  · obtain ⟨t, ht⟩ := htext hne
    exact text_put ht w
  · have hchars : before ++ "\"" ++ a ++ "$\x7b" ++ name ++ "\x7d" ++ b ++ "\"" ++ after =
        String.ofList (before.toList ++ '"' :: (a.toList ++ '$' :: '\x7b' ::
          (name.toList ++ '\x7d' :: (b.toList ++ '"' :: after.toList)))) := by
      apply String.toList_inj.1
      simp
    have hplain : ∀ c ∈ a.toList ++ v.toList ++ b.toList, isPlain c = true := by
      intro c hc
      simp only [List.mem_append] at hc
      rcases hc with (hc | hc) | hc
      · exact (Toml.isLiteral_iff.1 (ha c hc)).1
      · exact hv c hc
      · exact (Toml.isLiteral_iff.1 (hb c hc)).1
    have hdollar : ∀ {s : String}, (∀ c ∈ s.toList, isLiteral c = true) → '$' ∉ s.toList :=
      fun hs hmem => (Toml.isLiteral_iff.1 (hs '$' hmem)).2 rfl
    have htext : String.ofList (a.toList ++ v.toList ++ b.toList) = a ++ v ++ b := by
      apply String.toList_inj.1
      simp
    rw [hchars, parse_ofList, Settings.expandChars_append hbefore (by simp),
      expandChars_quoted_reference hvalue hne hname (hdollar ha) (hdollar hb), ← htext]
    exact hparse _ _ (Toml.spells_plain hplain hends)
  · have hchars : before ++ String.ofList (quoted w) ++ after =
        String.ofList (before.toList ++ (quoted w ++ after.toList)) := by
      apply String.toList_inj.1
      simp
    rw [hchars, parse_ofList, Settings.expandChars_append hbefore (by simp [quoted]),
      Settings.expandChars_plain (Toml.dollar_notMem_quoted w)]
    exact hparse _ _ (Toml.spells_quoted w hends)

end reference

/-- A value with a reference in it, which is not looked for again. -/
theorem parse_reference_folder :
    let value : String → Option String :=
      fun name => if name = "HOME" then some "/$\x7bX\x7d" else none
    HasTextBetween (expandChars value "[android]\nsdk_root = ".toList)
        (expandChars value "\n".toList) ∧
      ∃ (file : SettingsFile) (place : Place),
        (place ≠ .elsewhere → ∀ w, (file.put place w).text place = some w) ∧
        parse value ("[android]\nsdk_root = " ++ "\"" ++ "" ++ "$\x7b" ++ "HOME" ++ "\x7d" ++
          "/sdk" ++ "\"" ++ "\n") = .ok (file.put place ("" ++ "/$\x7bX\x7d" ++ "/sdk")) ∧
        ∀ w, parse value ("[android]\nsdk_root = " ++ String.ofList (quoted w) ++ "\n") =
          .ok (file.put place w) := by
  intro value
  have hclosed : ClosesReferences "[android]\nsdk_root = ".toList :=
    Settings.closesReferences_of_notMem (by decide)
  have hfile : HasTextBetween (expandChars value "[android]\nsdk_root = ".toList)
      (expandChars value "\n".toList) := by
    rw [Settings.expandChars_of_notMem (by decide), Settings.expandChars_of_notMem (by decide)]
    have hspells : Spells ('"' :: (['w'] ++ '"' :: "\n".toList)) "\n".toList "w" :=
      Toml.spells_plain (List.all_eq_true.1 (by decide)) (by decide)
    exact ⟨_, "w", _, hspells,
      .later (by cbv) (.here (by cbv) (.here _)), by cbv⟩
  exact ⟨hfile, parse_reference rfl (by decide) (by decide) (List.all_eq_true.1 (by decide))
    (List.all_eq_true.1 (by decide)) (List.all_eq_true.1 (by decide)) hclosed hfile⟩

/-- A reverse solidus in a value starts an escape, and a reference that a comment opens goes on up
    to the brace of the next one. -/
theorem parse_reference_solidus :
    HasTextBetween "[android]\nsdk_root = ".toList "\n".toList ∧
      parse (fun _ => some "C:\\sdk") "[android]\nsdk_root = \"$\x7bX\x7d\"\n" =
        .error (.malformed "malformed line 2") ∧
      HasTextBetween "# $\x7b\n[android]\nsdk_root = ".toList "\n".toList ∧
      parse (fun name => if name = "X" then some "/sdk" else none)
          "# $\x7b\n[android]\nsdk_root = \"$\x7bX\x7d\"\n" =
        .ok ⟨⟨some "$\x7bX\x7d", none, none, []⟩, none, none⟩ := by
  have hspells : Spells ('"' :: (['w'] ++ '"' :: "\n".toList)) "\n".toList "w" :=
    Toml.spells_plain (List.all_eq_true.1 (by decide)) (by decide)
  have hat : FileAt ('"' :: (['w'] ++ '"' :: "\n".toList)) ⟨[], []⟩
      "[android]\nsdk_root = \"w\"\n".toList :=
    .later (by cbv) (.here (by cbv) (.here _))
  have hcomment : Toml.lineBefore ⟨[], []⟩ "# $\x7b\n[android]\nsdk_root = \"w\"\n".toList =
      .ok (⟨[], []⟩, "[android]\nsdk_root = \"w\"\n".toList) := by
    cbv
  exact ⟨⟨_, "w", _, hspells, hat, by cbv⟩, by cbv,
    ⟨_, "w", _, hspells, .later hcomment hat, by cbv⟩, by cbv⟩

end TypeCatalog.SettingsFile
