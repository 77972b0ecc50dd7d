import GpuiFast.KeystrokeText
import Mathlib

/-! Printed keystrokes are read back as they were, and what is accepted is what was written, unless an
empty key is, or a dash at the end or parts behind a character typed are taken for the key. -/

namespace GpuiFast

open List Option

namespace Keystroke

variable {source : List Char}

lemma not_mem_splitOn {component : List Char} (h : component ∈ source.splitOn '-') :
    '-' ∉ component := by
  induction source generalizing component with
  | nil =>
    rw [splitOn_nil, mem_singleton] at h
    rw [h]
    exact not_mem_nil
  | cons c source ih =>
    rw [splitOn_cons_eq_if_modifyHead] at h
    obtain ⟨first, rest, hsplit⟩ := exists_cons_of_ne_nil (splitOn_ne_nil '-' source)
    rw [hsplit] at h ih
    by_cases hc : c = '-'
    · rw [if_pos (by simpa using hc)] at h
      rcases mem_cons.mp h with rfl | h
      · exact not_mem_nil
      · exact ih h
    · rw [if_neg (by simpa using hc), modifyHead_cons] at h
      rcases mem_cons.mp h with rfl | h
      · exact not_mem_cons_of_ne_of_not_mem (Ne.symm hc) (ih mem_cons_self)
      · exact ih (mem_cons_of_mem first h)

lemma splitOn_modifier {name : List Char} (h : '-' ∉ name) (b : Bool) (tail : List Char) :
    ((if b then name ++ ['-'] else []) ++ tail).splitOn '-' =
      (if b then [name] else []) ++ tail.splitOn '-' := by
  cases b with
  | false => rfl
  | true =>
    have hsplit := splitOn_append_cons_self_of_not_mem h tail
    simpa using hsplit

lemma modifierNamed_lower (component : List Char) :
    modifierNamed (component.map Char.toLower) = modifierNamed component := by
  have hlower : (component.map Char.toLower).map Char.toLower = component.map Char.toLower := by
    rw [List.map_map]
    exact map_congr_left (fun c _ => Char.toLower_toLower_eq_toLower c)
  simp only [modifierNamed, eqIgnoreAsciiCase, hlower]

section Printed

variable (os : OperatingSystem)

def printedModifiers (modifiers : Modifiers) : List (List Char) :=
  (if modifiers.function then [['f', 'n']] else []) ++
    (if modifiers.control then [['c', 't', 'r', 'l']] else []) ++
    (if modifiers.alt then [['a', 'l', 't']] else []) ++
    (if modifiers.platform then [platformName os] else []) ++
    (if modifiers.shift then [['s', 'h', 'i', 'f', 't']] else [])

lemma splitOn_unparse (keystroke : Keystroke) : (keystroke.unparse os).splitOn '-' =
    printedModifiers os keystroke.modifiers ++ keystroke.key.toList.splitOn '-' := by
  have hplatform : '-' ∉ platformName os := by cases os <;> decide
  rw [unparse, printedModifiers]
  simp only [append_assoc]
  rw [show (['f', 'n', '-'] : List Char) = ['f', 'n'] ++ ['-'] from rfl,
    splitOn_modifier (by decide),
    show (['c', 't', 'r', 'l', '-'] : List Char) = ['c', 't', 'r', 'l'] ++ ['-'] from rfl,
    splitOn_modifier (by decide),
    show (['a', 'l', 't', '-'] : List Char) = ['a', 'l', 't'] ++ ['-'] from rfl,
    splitOn_modifier (by decide), splitOn_modifier hplatform,
    show (['s', 'h', 'i', 'f', 't', '-'] : List Char) = ['s', 'h', 'i', 'f', 't'] ++ ['-'] from rfl,
    splitOn_modifier (by decide)]

variable {os} {endsInDash : Bool} {rest : List (List Char)} {parsed result : Parsed}

variable {component : List Char} {name : ModifierName}

lemma parseComponents_named (h : modifierNamed component = some name) :
    parseComponents (some os) endsInDash (component :: rest) parsed =
      (parsed.modifiers.press (some os) name).bind (fun modifiers =>
        parseComponents (some os) endsInDash rest { parsed with modifiers := modifiers }) := by
  cases rest with
  | nil =>
    simp only [parseComponents, h]
    cases parsed.modifiers.press (some os) name <;> rfl
  | cons next rest =>
    rw [parseComponents.eq_def]
    simp only [h]

lemma parseComponents_printed (b : Bool) (h : modifierNamed component = some name)
    {set : Modifiers → Modifiers}
    (hset : ∀ modifiers : Modifiers, modifiers.press (some os) name = some (set modifiers)) :
    parseComponents (some os) endsInDash ((if b then [component] else []) ++ rest) parsed =
      parseComponents (some os) endsInDash rest
        { parsed with modifiers := if b then set parsed.modifiers else parsed.modifiers } := by
  cases b with
  | false => rfl
  | true =>
    have hnamed := @parseComponents_named os endsInDash rest parsed component name h
    rw [hset, bind_some] at hnamed
    exact hnamed

lemma parseComponents_printedModifiers (modifiers : Modifiers) :
    parseComponents (some os) endsInDash (printedModifiers os modifiers ++ rest)
        ⟨.none, none, none⟩ =
      parseComponents (some os) endsInDash rest ⟨modifiers, none, none⟩ := by
  have hplatform : modifierNamed (platformName os) = some .platform := by cases os <;> rfl
  rw [printedModifiers]
  simp only [append_assoc]
  rw [parseComponents_printed _ (show modifierNamed ['f', 'n'] = some .function from rfl)
      (fun _ => rfl),
    parseComponents_printed _ (show modifierNamed ['c', 't', 'r', 'l'] = some .ctrl from rfl)
      (fun _ => rfl),
    parseComponents_printed _ (show modifierNamed ['a', 'l', 't'] = some .alt from rfl)
      (fun _ => rfl),
    parseComponents_printed _ hplatform (fun _ => rfl),
    parseComponents_printed _ (show modifierNamed ['s', 'h', 'i', 'f', 't'] = some .shift from rfl)
      (fun _ => rfl)]
  congr 2
  rcases modifiers with ⟨_ | _, _ | _, _ | _, _ | _, _ | _⟩ <;> rfl

end Printed

inductive Read (os : Option OperatingSystem) (endsInDash : Bool) :
    List (List Char) → Parsed → Parsed → Prop
  | done {parsed : Parsed} : Read os endsInDash [] parsed parsed
  | modifier {component : List Char} {rest : List (List Char)} {parsed result : Parsed}
    {name : ModifierName} {modifiers : Modifiers} : modifierNamed component = some name →
    parsed.modifiers.press os name = some modifiers →
    Read os endsInDash rest { parsed with modifiers := modifiers } result →
    Read os endsInDash (component :: rest) parsed result
  | key {component : List Char} {parsed : Parsed} : modifierNamed component = none →
    Read os endsInDash [component] parsed { parsed with
      modifiers := { parsed.modifiers with
        shift := parsed.modifiers.shift || isUppercaseKey component }
      key := some (component.map Char.toLower) }
  | dash {component : List Char} {rest : List (List Char)} {parsed : Parsed} :
    modifierNamed component = none → endsInDash = true →
    Read os endsInDash (component :: [] :: rest) parsed { parsed with key := some ['-'] }
  | typed {component keyChar : List Char} {c : Char} {rest : List (List Char)}
    {parsed result : Parsed} : modifierNamed component = none →
    Read os endsInDash rest
      { parsed with key := some component, keyChar := some (c :: keyChar) } result →
    Read os endsInDash (component :: ('>' :: c :: keyChar) :: rest) parsed result

section Read

variable {os : Option OperatingSystem} {endsInDash : Bool} {components : List (List Char)}
  {parsed result : Parsed}

lemma read_of_parseComponents (h : parseComponents os endsInDash components parsed = some result) :
    Read os endsInDash components parsed result := by
  fun_induction parseComponents os endsInDash components parsed with
  | case1 parsed =>
    obtain rfl := some.inj h
    exact .done
  | case2 component parsed name hname =>
    obtain ⟨modifiers, hpress, rfl⟩ := map_eq_some_iff.mp h
    exact .modifier hname hpress .done
  | case3 component parsed hname =>
    obtain rfl := some.inj h
    exact .key hname
  | case4 component next rest parsed name hname ih =>
    obtain ⟨modifiers, hpress, h⟩ := bind_eq_some_iff.mp h
    exact .modifier hname hpress (ih modifiers h)
  | case5 component next rest parsed hname hdash =>
    obtain ⟨rfl, hends⟩ := hdash
    obtain rfl := some.inj h
    exact .dash hname hends
  | case6 component rest parsed hname c keyChar hdash ih => exact .typed hname (ih h)
  | case7 component next rest parsed hname hdash htyped => cases h

lemma parseComponents_of_read (h : Read os endsInDash components parsed result) :
    parseComponents os endsInDash components parsed = some result := by
  induction h with
  | done => rw [parseComponents]
  | @modifier component rest parsed result name modifiers hname hpress hrest ih =>
    cases rest with
    | nil =>
      rw [parseComponents] at ih
      simp only [parseComponents, hname, hpress, map_some, ih]
    | cons next rest =>
      rw [parseComponents.eq_def]
      simp only [hname, hpress, bind_some, ih]
  | key hname => simp only [parseComponents, hname]
  | dash hname hends =>
    rw [parseComponents.eq_def]
    simp only [hname, hends, and_self, if_true]
  | typed hname hrest ih =>
    rw [parseComponents.eq_def]
    simp only [hname, ih, reduceCtorEq, false_and, if_false]

lemma Read.keyChar (h : Read os endsInDash components parsed result)
    (hkeyChar : parsed.keyChar ≠ none) : result.keyChar ≠ none := by
  induction h with
  | done => exact hkeyChar
  | modifier _ _ _ ih => exact ih hkeyChar
  | key _ => exact hkeyChar
  | dash _ _ => exact hkeyChar
  | typed _ _ ih => exact ih (some_ne_none _)

lemma Read.key_of_untyped (h : Read os endsInDash components parsed result)
    (hdash : ∀ component ∈ components, '-' ∉ component) (hparsed : parsed.key = none)
    (hkeyChar : result.keyChar = none) {key : List Char} (hkey : result.key = some key) :
    key = ['-'] ∨ '-' ∉ key ∧ modifierNamed key = none ∧ key.map Char.toLower = key := by
  induction h with
  | done =>
    rw [hparsed] at hkey
    cases hkey
  | modifier hname _ _ ih =>
    exact ih (fun component hc => hdash component (mem_cons_of_mem _ hc)) hparsed hkeyChar hkey
  | @key component parsed hname =>
    obtain rfl := some.inj hkey
    refine .inr ⟨?_, (modifierNamed_lower component).trans hname, ?_⟩
    · intro hmem
      obtain ⟨c, hc, hlower⟩ := mem_map.mp hmem
      have halpha : c.isAlpha = false := by
        rw [← Char.isAlpha_toLower_eq_isAlpha, hlower]
        rfl
      have hupper : ¬c.isUpper = true := fun h => by simp [Char.isAlpha, h] at halpha
      rw [Char.toLower_eq_of_not_isUpper hupper] at hlower
      exact hdash component mem_cons_self (hlower ▸ hc)
    · rw [List.map_map]
      exact map_congr_left (fun c _ => Char.toLower_toLower_eq_toLower c)
  | dash _ _ => exact .inl (some.inj hkey).symm
  | typed _ hrest _ => exact absurd hkeyChar (hrest.keyChar (some_ne_none _))

end Read

inductive ReadKey (modifiers : Modifiers) : List Char → Prop
  | dash : ReadKey modifiers ['-']
  | named {component : List Char} : '-' ∉ component → modifierNamed component = none →
    component.map Char.toLower = component → ReadKey modifiers component
  | shift : modifiers.shift = false → ReadKey modifiers ['s', 'h', 'i', 'f', 't']
  | alt : modifiers.shift = false → modifiers.control = false → modifiers.alt = false →
    ReadKey modifiers ['a', 'l', 't']

variable {os : Option OperatingSystem} {keystroke : Keystroke}

lemma parseInternal_eq_ok :
    parseInternal source os = .ok keystroke ↔
      ∃ result, Read os (source.getLast? = some '-') (source.splitOn '-') ⟨.none, none, none⟩
        result ∧ ofParsed result = some keystroke := by
  rw [parseInternal]
  constructor
  · intro h
    split at h
    · next hread =>
      obtain ⟨result, hread, hresult⟩ := bind_eq_some_iff.mp hread
      obtain rfl := Except.ok.inj h
      exact ⟨result, read_of_parseComponents hread, hresult⟩
    · cases h
  · rintro ⟨result, hread, hresult⟩
    rw [parseComponents_of_read hread, bind_some, hresult]

lemma readKey_of_parse (h : parseInternal source os = .ok keystroke)
    (hkeyChar : keystroke.keyChar = none) : ReadKey keystroke.modifiers keystroke.key.toList := by
  obtain ⟨result, hread, hresult⟩ := parseInternal_eq_ok.mp h
  have hdash : ∀ component ∈ source.splitOn '-', '-' ∉ component := fun _ => not_mem_splitOn
  rw [ofParsed] at hresult
  cases hkey : result.key with
  | some key =>
    rw [hkey] at hresult
    obtain rfl := some.inj hresult
    have huntyped : result.keyChar = none := map_eq_none_iff.mp hkeyChar
    show ReadKey result.modifiers (String.ofList key).toList
    rw [String.toList_ofList]
    rcases hread.key_of_untyped hdash rfl huntyped hkey with rfl | ⟨hmem, hname, hlower⟩
    · exact .dash
    · exact .named hmem hname hlower
  | none =>
    rw [hkey] at hresult
    obtain ⟨⟨key, modifiers⟩, htake, rfl⟩ := map_eq_some_iff.mp hresult
    show ReadKey modifiers (String.ofList key).toList
    rw [String.toList_ofList]
    rw [Modifiers.takeKey] at htake
    split_ifs at htake with hshift hcontrol halt hplatform hfunction
    all_goals obtain ⟨rfl, rfl⟩ := Prod.mk.inj (some.inj htake)
    · exact .shift rfl
    · exact .named (by decide) (by decide) (by decide)
    · exact .alt (Bool.not_eq_true _ ▸ hshift) (Bool.not_eq_true _ ▸ hcontrol) rfl
    · exact .named (by decide) (by decide) (by decide)
    · exact .named (by decide) (by decide) (by decide)

lemma parse_unparse_of_readKey {os : OperatingSystem} {modifiers : Modifiers} {key : List Char}
    (h : ReadKey modifiers key) :
    parseWithOs (unparse ⟨modifiers, .ofList key, none⟩ os) os =
      .ok ⟨modifiers, .ofList key, none⟩ := by
  refine parseInternal_eq_ok.mpr ?_
  have hsplit := splitOn_unparse os ⟨modifiers, .ofList key, none⟩
  simp only [String.toList_ofList] at hsplit
  have hread : ∀ {endsInDash : Bool} {rest : List (List Char)} {result : Parsed},
      Read (some os) endsInDash rest ⟨modifiers, none, none⟩ result →
      Read (some os) endsInDash (printedModifiers os modifiers ++ rest) ⟨.none, none, none⟩
        result := by
    intro endsInDash rest result hrest
    refine read_of_parseComponents ?_
    rw [parseComponents_printedModifiers]
    exact parseComponents_of_read hrest
  rw [hsplit]
  cases h with
  | dash =>
    refine ⟨_, hread (.dash rfl ?_), rfl⟩
    simp [unparse]
  | named hmem hname hlower =>
    have huppercase : isUppercaseKey key = false := by
      rw [← hlower]
      cases key with
      | nil => rfl
      | cons c key =>
        cases key with
        | nil => exact Char.isUpper_toLower_eq_false c
        | cons d key => rfl
    rw [splitOn_eq_singleton hmem]
    refine ⟨_, hread (.key hname), ?_⟩
    simp only [ofParsed, huppercase, Bool.or_false, hlower]
    rfl
  | shift hshift =>
    refine ⟨_, hread (.modifier rfl rfl .done), ?_⟩
    rcases modifiers with ⟨control, alt, shift, platform, function⟩
    obtain rfl : shift = false := hshift
    rfl
  | alt hshift hcontrol halt =>
    refine ⟨_, hread (.modifier rfl rfl .done), ?_⟩
    rcases modifiers with ⟨control, alt, shift, platform, function⟩
    obtain rfl : shift = false := hshift
    obtain rfl : control = false := hcontrol
    obtain rfl : alt = false := halt
    rfl

/-- A keystroke that is accepted with no character typed is printed as it is read. -/
theorem parse_unparse {source : List Char} {os : OperatingSystem} {keystroke : Keystroke}
    (h : parseWithOs source os = .ok keystroke) (hkeyChar : keystroke.keyChar = none) :
    parseWithOs (keystroke.unparse os) os = .ok keystroke := by
  have hread := @parse_unparse_of_readKey os _ _ (readKey_of_parse h hkeyChar)
  rw [String.ofList_toList] at hread
  rcases keystroke with ⟨modifiers, key, keyChar⟩
  obtain rfl : keyChar = none := hkeyChar
  exact hread

theorem parse_unparse_shift_minus :
    parseWithOs (unparse ⟨⟨false, false, true, true, false⟩, .ofList ['-'], none⟩ .linux) .linux =
      .ok ⟨⟨false, false, true, true, false⟩, .ofList ['-'], none⟩ :=
  @parse_unparse ['S', 'h', 'i', 'f', 't', '-', 'C', 'm', 'd', '-', '-'] .linux
    ⟨⟨false, false, true, true, false⟩, .ofList ['-'], none⟩ rfl rfl

end Keystroke

end GpuiFast
