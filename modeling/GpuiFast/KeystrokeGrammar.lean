import GpuiFast.KeystrokeReads

/-! Modifiers with a dash behind each, a key, and `->` with the character that it types; or modifiers
only, one of which is the key. What is accepted was written like that, unless a key is empty, or a
dash at the end or parts behind the typed character are taken for the key in place of the part
before. -/

namespace GpuiFast

open List Option

namespace Keystroke

def pressAll (os : OperatingSystem) (modifiers : Modifiers) : List (List Char) → Option Modifiers
  | [] => some modifiers
  | name :: names => (modifierNamed name).bind (fun modifier =>
    (modifiers.press (some os) modifier).bind (fun modifiers => pressAll os modifiers names))

def prefixText (names : List (List Char)) : List Char := names.flatMap (fun name => name ++ ['-'])

inductive WrittenAs (os : OperatingSystem) : List Char → Keystroke → Prop
  | key {names : List (List Char)} {modifiers : Modifiers} {text : List Char} :
    pressAll os .none names = some modifiers → text ≠ [] → text = ['-'] ∨ '-' ∉ text →
    WrittenAs os (prefixText names ++ text)
      ⟨{ modifiers with shift := modifiers.shift || isUppercaseKey text },
        .ofList (text.map Char.toLower), none⟩
  | typed {names : List (List Char)} {modifiers : Modifiers} {text keyChar : List Char} :
    pressAll os .none names = some modifiers → text ≠ [] → '-' ∉ text → '-' ∉ keyChar →
    WrittenAs os (prefixText names ++ text ++ '-' :: '>' :: keyChar)
      ⟨modifiers, .ofList text, some (.ofList keyChar)⟩
  | modifier {names : List (List Char)} {modifiers left : Modifiers} {key : List Char} :
    pressAll os .none names = some modifiers → modifiers.takeKey = some (key, left) →
    WrittenAs os (['-'].intercalate names) ⟨left, .ofList key, none⟩

def accepted (endsInDash : Bool) : List (List Char) → Bool
  | [] => true
  | [_] => true
  | component :: next :: rest =>
    if (modifierNamed component).isSome then accepted endsInDash (next :: rest)
    else if next = [] ∧ endsInDash = true then true
    else
      match next with
      | '>' :: _ :: _ => accepted endsInDash rest
      | _ => false

def behindModifiers (source : List Char) : List (List Char) :=
  (source.splitOn '-').dropWhile (fun component => (modifierNamed component).isSome)

/-- Whether a source that is accepted leaves nothing out: what is behind the modifiers is nothing, a
part, the dash key, or a part with the character typed; a source that does not fit is refused for
what is behind that character. -/
def LeavesNothingOut (source : List Char) : Prop :=
  match behindModifiers source with
  | [] => True
  | [key] => key ≠ []
  | key :: next :: rest =>
    if next = [] ∧ source.getLast? = some '-' then key = [] ∧ rest = []
    else
      match next with
      | '>' :: _ :: _ =>
        key ≠ [] ∧ rest = [] ∨ accepted (source.getLast? = some '-') rest = false
      | _ => True

section Names

variable {os : OperatingSystem} {names : List (List Char)} {modifiers pressed : Modifiers}

lemma press_isSome (os : OperatingSystem) (modifiers : Modifiers) (name : ModifierName) :
    ∃ pressed, modifiers.press (some os) name = some pressed := by
  cases name <;> exact ⟨_, rfl⟩

lemma pressAll_isSome (h : ∀ name ∈ names, (modifierNamed name).isSome) :
    ∃ pressed, pressAll os modifiers names = some pressed := by
  induction names generalizing modifiers with
  | nil => exact ⟨modifiers, rfl⟩
  | cons name names ih =>
    obtain ⟨modifier, hmodifier⟩ := isSome_iff_exists.mp (h name mem_cons_self)
    obtain ⟨next, hnext⟩ := press_isSome os modifiers modifier
    obtain ⟨pressed, hpressed⟩ :=
      @ih next (fun name hname => h name (mem_cons_of_mem _ hname))
    refine ⟨pressed, ?_⟩
    rw [pressAll, hmodifier, bind_some, hnext, bind_some, hpressed]

lemma modifierNamed_of_pressAll (h : pressAll os modifiers names = some pressed) :
    ∀ name ∈ names, (modifierNamed name).isSome := by
  induction names generalizing modifiers with
  | nil => exact fun _ hname => (by cases hname)
  | cons name names ih =>
    obtain ⟨modifier, hmodifier, h⟩ := bind_eq_some_iff.mp h
    obtain ⟨next, -, h⟩ := bind_eq_some_iff.mp h
    intro other hother
    rcases mem_cons.mp hother with rfl | hother
    · rw [hmodifier]
      rfl
    · exact ih h other hother

lemma not_mem_of_modifierNamed {name : List Char} (h : (modifierNamed name).isSome) :
    '-' ∉ name := by
  intro hmem
  obtain ⟨modifier, hmodifier⟩ := isSome_iff_exists.mp h
  obtain ⟨found, hfound, -⟩ := map_eq_some_iff.mp hmodifier
  have hmatch := find?_some hfound
  have heq : name.map Char.toLower = found.1.map Char.toLower := of_decide_eq_true hmatch
  have hdash : '-' ∈ found.1.map Char.toLower := heq ▸ mem_map_of_mem hmem
  have hnone : ∀ name ∈ modifierNames, '-' ∉ name.1.map Char.toLower := by decide
  exact hnone found (mem_of_find?_eq_some hfound) hdash

lemma read_names_iff {endsInDash : Bool} {rest : List (List Char)}
    {key keyChar : Option (List Char)} {result : Parsed} (h : pressAll os modifiers names = some pressed) :
    Read (some os) endsInDash (names ++ rest) ⟨modifiers, key, keyChar⟩ result ↔
      Read (some os) endsInDash rest ⟨pressed, key, keyChar⟩ result := by
  induction names generalizing modifiers with
  | nil =>
    obtain rfl := some.inj h
    rfl
  | cons name names ih =>
    obtain ⟨modifier, hmodifier, h⟩ := bind_eq_some_iff.mp h
    obtain ⟨next, hnext, h⟩ := bind_eq_some_iff.mp h
    rw [← ih h]
    constructor
    · intro hread
      have hparse := parseComponents_of_read hread
      rw [cons_append, parseComponents_named hmodifier, hnext] at hparse
      exact read_of_parseComponents hparse
    · exact fun hrest => .modifier hmodifier hnext hrest

lemma splitOn_prefixText (h : ∀ name ∈ names, '-' ∉ name) (text : List Char) :
    (prefixText names ++ text).splitOn '-' = names ++ text.splitOn '-' := by
  induction names with
  | nil => rfl
  | cons name names ih =>
    have hsplit := splitOn_append_cons_self_of_not_mem (h name mem_cons_self)
      (prefixText names ++ text)
    rw [ih (fun name hname => h name (mem_cons_of_mem _ hname))] at hsplit
    simpa [prefixText] using hsplit

end Names

inductive Behind : List (List Char) → Prop
  | modifiers : Behind []
  | key {key : List Char} : key ≠ [] → Behind [key]
  | dash : Behind [[], []]
  | typed {key keyChar : List Char} : key ≠ [] → Behind [key, '>' :: keyChar]

lemma dropWhile_names {names : List (List Char)} (h : ∀ name ∈ names, (modifierNamed name).isSome)
    (rest : List (List Char)) :
    (names ++ rest).dropWhile (fun component => (modifierNamed component).isSome) =
      rest.dropWhile (fun component => (modifierNamed component).isSome) :=
  dropWhile_append_of_pos h

lemma Behind.dropWhile {text : List Char} {rest : List (List Char)}
    (hrest : Behind (rest.dropWhile (fun component => (modifierNamed component).isSome)))
    (h : modifierNamed text = none → Behind (text :: rest)) :
    Behind ((text :: rest).dropWhile (fun component => (modifierNamed component).isSome)) := by
  cases hname : modifierNamed text with
  | none =>
    rw [dropWhile_cons_of_neg (by simp [hname])]
    exact h hname
  | some name =>
    rw [dropWhile_cons_of_pos (by simp [hname])]
    exact hrest

variable {source : List Char}

lemma WrittenAs.behind {os : OperatingSystem} {keystroke : Keystroke}
    (h : WrittenAs os source keystroke) : Behind (behindModifiers source) := by
  cases h with
  | @key names modifiers text hnames hne hdash =>
    have hall := modifierNamed_of_pressAll hnames
    rw [behindModifiers, splitOn_prefixText (fun name hname => not_mem_of_modifierNamed
      (hall name hname)), dropWhile_names hall]
    rcases hdash with rfl | hdash
    · exact .dash
    · rw [splitOn_eq_singleton hdash]
      exact Behind.dropWhile .modifiers (fun _ => .key hne)
  | @typed names modifiers text keyChar hnames hne hdash hdash' =>
    have hall := modifierNamed_of_pressAll hnames
    have htail : '-' ∉ '>' :: keyChar :=
      not_mem_cons_of_ne_of_not_mem (by decide) hdash'
    rw [behindModifiers, append_assoc, splitOn_prefixText (fun name hname =>
      not_mem_of_modifierNamed (hall name hname)), dropWhile_names hall,
      splitOn_append_cons_self_of_not_mem hdash, splitOn_eq_singleton htail]
    refine Behind.dropWhile ?_ (fun _ => .typed hne)
    exact Behind.dropWhile .modifiers (fun _ => .key (cons_ne_nil _ _))
  | @modifier names modifiers left key hnames htake =>
    have hall := modifierNamed_of_pressAll hnames
    have hne : names ≠ [] := by
      rintro rfl
      rw [← some.inj hnames] at htake
      cases htake
    rw [behindModifiers, splitOn_intercalate '-' (fun name hname =>
      not_mem_of_modifierNamed (hall name hname)) hne, ← append_nil names,
      dropWhile_names hall]
    exact .modifiers

section Accepted

variable {os : OperatingSystem} {endsInDash : Bool} {components : List (List Char)}
  {parsed result : Parsed}

lemma read_of_accepted (h : accepted endsInDash components = true) (parsed : Parsed) :
    ∃ result, Read (some os) endsInDash components parsed result := by
  fun_induction accepted endsInDash components generalizing parsed with
  | case1 => exact ⟨parsed, .done⟩
  | case2 component =>
    cases hname : modifierNamed component with
    | none => exact ⟨_, .key hname⟩
    | some name =>
      obtain ⟨pressed, hpressed⟩ := press_isSome os parsed.modifiers name
      exact ⟨_, .modifier hname hpressed .done⟩
  | case3 component next rest hname ih =>
    obtain ⟨name, hname⟩ := isSome_iff_exists.mp hname
    obtain ⟨pressed, hpressed⟩ := press_isSome os parsed.modifiers name
    obtain ⟨result, hresult⟩ := ih h { parsed with modifiers := pressed }
    exact ⟨result, .modifier hname hpressed hresult⟩
  | case4 component next rest hname hdash =>
    obtain ⟨rfl, hends⟩ := hdash
    exact ⟨_, .dash (not_isSome_iff_eq_none.mp hname) hends⟩
  | case5 component rest hname c keyChar hdash ih =>
    obtain ⟨result, hresult⟩ :=
      ih h { parsed with key := some component, keyChar := some (c :: keyChar) }
    exact ⟨result, .typed (not_isSome_iff_eq_none.mp hname) hresult⟩
  | case6 component next rest hname hdash htyped => cases h

lemma Read.accepted (h : Read (some os) endsInDash components parsed result) :
    accepted endsInDash components = true := by
  induction h with
  | done => rfl
  | @modifier component rest _ _ _ _ hname _ _ ih =>
    cases rest with
    | nil => rfl
    | cons next rest =>
      rw [Keystroke.accepted.eq_def]
      simp only [hname, isSome_some, if_true]
      exact ih
  | key _ => rfl
  | dash hname hends =>
    rw [Keystroke.accepted.eq_def]
    simp [hname, hends]
  | typed hname _ ih =>
    rw [Keystroke.accepted.eq_def]
    simpa [hname] using ih

lemma Read.key_ne_none {os : Option OperatingSystem}
    (h : Read os endsInDash components parsed result) (hkey : parsed.key ≠ none) :
    result.key ≠ none := by
  induction h with
  | done => exact hkey
  | modifier _ _ _ ih => exact ih hkey
  | key _ => exact some_ne_none _
  | dash _ _ => exact some_ne_none _
  | typed _ _ ih => exact ih (some_ne_none _)

lemma Read.key_of_not_modifier {os : Option OperatingSystem} {component : List Char}
    (h : Read os endsInDash (component :: components) parsed result)
    (hname : modifierNamed component = none) : result.key ≠ none := by
  cases h with
  | modifier hname' _ _ =>
    rw [hname] at hname'
    cases hname'
  | key _ => exact some_ne_none _
  | dash _ _ => exact some_ne_none _
  | typed _ hrest => exact hrest.key_ne_none (some_ne_none _)

end Accepted

lemma parseWithOs_eq_ok (source : List Char) (os : OperatingSystem) :
    ∃ names modifiers, source.splitOn '-' = names ++ behindModifiers source ∧
      pressAll os .none names = some modifiers ∧
      ∀ keystroke, parseWithOs source os = .ok keystroke ↔
        ∃ result, Read (some os) (source.getLast? = some '-') (behindModifiers source)
          ⟨modifiers, none, none⟩ result ∧ ofParsed result = some keystroke := by
  obtain ⟨modifiers, hmodifiers⟩ := @pressAll_isSome os ((source.splitOn '-').takeWhile
    (fun component => (modifierNamed component).isSome)) .none
    (fun name hname => by simpa using mem_takeWhile_imp hname)
  refine ⟨_, modifiers, takeWhile_append_dropWhile.symm, hmodifiers, fun keystroke => ?_⟩
  rw [parseWithOs, parseInternal_eq_ok]
  refine exists_congr (fun result => and_congr_left (fun _ => ?_))
  rw [behindModifiers, ← read_names_iff hmodifiers, takeWhile_append_dropWhile]

lemma intercalate_names (names : List (List Char)) (component : List Char)
    (rest : List (List Char)) : ['-'].intercalate (names ++ component :: rest) =
      prefixText names ++ ['-'].intercalate (component :: rest) := by
  induction names with
  | nil => rfl
  | cons name names ih =>
    rw [cons_append, intercalate_cons_of_ne_nil (by simp), ih]
    simp [prefixText]

lemma modifierNamed_behind {component : List Char} {rest : List (List Char)}
    (h : behindModifiers source = component :: rest) : modifierNamed component = none := by
  have hhead := head?_dropWhile_not
    (fun component => (modifierNamed component).isSome) (source.splitOn '-')
  rw [behindModifiers] at h
  rw [h] at hhead
  exact not_isSome_iff_eq_none.mp (Bool.eq_false_iff.mp hhead)

lemma leavesNothingOut_iff (source : List Char) (os : OperatingSystem) (parsed : Parsed) :
    LeavesNothingOut source ↔
      ∀ result, Read (some os) (source.getLast? = some '-') (behindModifiers source) parsed result →
        Behind (behindModifiers source) := by
  rw [LeavesNothingOut]
  cases hbehind : behindModifiers source with
  | nil => exact iff_of_true trivial (fun _ _ => .modifiers)
  | cons key rest =>
    have hname := modifierNamed_behind hbehind
    cases rest with
    | nil =>
      refine ⟨fun hne _ _ => .key hne, fun h hempty => ?_⟩
      cases h _ (.key hname) with
      | key hne => exact hne hempty
    | cons next rest =>
      by_cases hdash : next = [] ∧ source.getLast? = some '-'
      · -- the dash is taken for the key, and what is around it is left out
        obtain ⟨rfl, hends⟩ := hdash
        simp only [hends, and_self, if_true]
        refine ⟨?_, fun h => ?_⟩
        · rintro ⟨rfl, rfl⟩ _ _
          exact .dash
        · cases h _ (.dash hname (decide_eq_true trivial)) with
          | dash => exact ⟨rfl, rfl⟩
      · simp only [hdash, if_false]
        split
        · next c keyChar =>
          constructor
          · rintro (⟨hne, rfl⟩ | hrefused) result hread
            · exact .typed hne
            · cases hread with
              | modifier hname' _ _ =>
                rw [hname] at hname'
                cases hname'
              | typed _ hrest =>
                rw [hrest.accepted] at hrefused
                cases hrefused
          · intro h
            cases haccepted : accepted (source.getLast? = some '-') rest with
            | false => exact .inr rfl
            | true =>
              obtain ⟨result, hread⟩ := read_of_accepted haccepted
                { parsed with key := some key, keyChar := some (c :: keyChar) }
              cases h _ (.typed hname hread) with
              | typed hne => exact .inl ⟨hne, rfl⟩
        · next htyped =>
          refine iff_of_true trivial (fun result hread => ?_)
          cases hread with
          | modifier hname' _ _ =>
            rw [hname] at hname'
            cases hname'
          | dash _ hends => exact absurd ⟨rfl, of_decide_eq_true hends⟩ hdash
          | typed _ _ => exact absurd rfl (htyped _ _)

lemma Read.writtenAs {os : OperatingSystem} {names components : List (List Char)}
    {modifiers : Modifiers} {endsInDash : Bool} {result : Parsed} {keystroke : Keystroke}
    (hread : Read (some os) endsInDash components ⟨modifiers, none, none⟩ result)
    (hresult : ofParsed result = some keystroke)
    (hmodifiers : pressAll os .none names = some modifiers) (hbehind : Behind components)
    (hname : ∀ component ∈ components.head?, modifierNamed component = none)
    (hnodash : ∀ component ∈ components, '-' ∉ component) :
    WrittenAs os (['-'].intercalate (names ++ components)) keystroke := by
  cases hbehind with
  | modifiers =>
    cases hread
    obtain ⟨⟨key, left⟩, htake, rfl⟩ := map_eq_some_iff.mp hresult
    rw [append_nil]
    exact .modifier hmodifiers htake
  | @key key hne =>
    have hname := hname key rfl
    rw [intercalate_names, intercalate_singleton]
    cases hread with
    | modifier hname' _ _ =>
      rw [hname] at hname'
      cases hname'
    | key _ =>
      obtain rfl := some.inj hresult
      exact .key hmodifiers hne (.inr (hnodash key mem_cons_self))
  | dash =>
    rw [intercalate_names, intercalate_cons_cons]
    cases hread with
    | modifier hname' _ _ => cases hname'
    | dash _ _ =>
      obtain rfl := some.inj hresult
      have hwritten := @WrittenAs.key os _ modifiers ['-'] hmodifiers (by simp) (.inl rfl)
      rw [show isUppercaseKey ['-'] = false from rfl, Bool.or_false] at hwritten
      exact hwritten
  | @typed key keyChar hne =>
    have hname := hname key rfl
    rw [intercalate_names, intercalate_cons_cons]
    cases hread with
    | modifier hname' _ _ =>
      rw [hname] at hname'
      cases hname'
    | typed _ hrest =>
      cases hrest
      obtain rfl := some.inj hresult
      have htyped := hnodash _ (mem_cons_of_mem _ mem_cons_self)
      have hwritten := WrittenAs.typed hmodifiers hne (hnodash key mem_cons_self)
        (fun h => htyped (mem_cons_of_mem _ h))
      simpa using hwritten

/-- A keystroke that is accepted was written as it is, with nothing left out, on exactly the sources
that leave nothing out. -/
theorem writtenAs_iff (source : List Char) (os : OperatingSystem) :
    (∀ keystroke, parseWithOs source os = .ok keystroke → WrittenAs os source keystroke) ↔
      LeavesNothingOut source := by
  obtain ⟨names, modifiers, hsplit, hmodifiers, hparse⟩ := parseWithOs_eq_ok source os
  have hsource : ['-'].intercalate (source.splitOn '-') = source := intercalate_splitOn '-'
  rw [leavesNothingOut_iff source os ⟨modifiers, none, none⟩]
  constructor
  · intro hwritten result hread
    cases hbehind : behindModifiers source with
    | nil => exact .modifiers
    | cons component rest =>
      -- what is behind the modifiers gives a key, so a keystroke is accepted
      rw [← hbehind]
      obtain ⟨key, hkey⟩ := ne_none_iff_exists'.mp
        ((hbehind ▸ hread).key_of_not_modifier (modifierNamed_behind hbehind))
      have hkeystroke : ofParsed result =
          some ⟨result.modifiers, .ofList key, result.keyChar.map .ofList⟩ := by
        rw [ofParsed, hkey]
      exact (hwritten _ ((hparse _).mpr ⟨result, hread, hkeystroke⟩)).behind
  · intro hbehind keystroke hkeystroke
    obtain ⟨result, hread, hresult⟩ := (hparse keystroke).mp hkeystroke
    rw [← hsource, hsplit]
    refine hread.writtenAs hresult hmodifiers (hbehind result hread) (fun component hhead => ?_)
      (fun component hc => not_mem_splitOn (hsplit ▸ mem_append_right names hc))
    obtain ⟨rest, hrest⟩ := head?_eq_some_iff.mp hhead
    exact modifierNamed_behind hrest

/-- In `a-` the `a` is left out. -/
theorem not_writtenAs_trailingDash :
    ¬∀ keystroke, parseWithOs ['a', '-'] .linux = .ok keystroke →
      WrittenAs .linux ['a', '-'] keystroke := by
  intro hwritten
  have hparse : parseWithOs ['a', '-'] .linux = .ok ⟨.none, .ofList ['-'], none⟩ := rfl
  have hbehind : behindModifiers ['a', '-'] = [['a'], []] := by decide
  have h := (hwritten _ hparse).behind
  rw [hbehind] at h
  cases h

end Keystroke

end GpuiFast
