import GpuiFast.PathCache
import GpuiFast.Recency

namespace GpuiFast

open List

namespace KeptPaths

variable {P : Type*}

/-- The shape in a slot of `slots`. -/
def shapeAt (slots : List (Option (PathSlot P))) (place : ℕ) : Option (PathSlot P) :=
  slots[place]?.join

variable {place : ℕ}

lemma shapeAt_set {slots : List (Option (PathSlot P))} (h : place < slots.length)
    (shape : Option (PathSlot P)) (i : ℕ) :
    shapeAt (slots.set place shape) i = if i = place then shape else shapeAt slots i := by
  rw [shapeAt, getElem?_set]
  by_cases hi : place = i
  · subst hi
    simp [h]
  · simp [hi, Ne.symm hi, shapeAt]

lemma lt_length_of_shapeAt {slots : List (Option (PathSlot P))} {shape : PathSlot P}
    (h : shapeAt slots place = some shape) : place < slots.length := by
  by_contra hge
  rw [shapeAt, getElem?_eq_none (Nat.not_lt.mp hge)] at h
  cases h

/-- The slot of the first of `entries`, each a key and a slot, or else `older`. -/
def firstPlace : List (PathKey × ℕ) → (older : Option ℕ) → Option ℕ
  | [], older => older
  | entry :: _, _ => some entry.2

/-- The slot of the last of `entries`, or else `newer`. -/
def lastPlace : (newer : Option ℕ) → List (PathKey × ℕ) → Option ℕ
  | newer, [] => newer
  | _, entry :: entries => lastPlace (some entry.2) entries

/-- The slots of `entries` hold their shapes, linked one to the next between `newer` and `older`. -/
def Linked (weight : PathKey → ℕ) (slots : List (Option (PathSlot P))) :
    (newer : Option ℕ) → List (PathKey × ℕ) → (older : Option ℕ) → Prop
  | _, [], _ => True
  | newer, entry :: entries, older =>
    (∃ path, shapeAt slots entry.2 =
      some ⟨entry.1, path, weight entry.1, newer, firstPlace entries older⟩) ∧
      Linked weight slots (some entry.2) entries older

variable {weight : PathKey → ℕ} {slots slots' : List (Option (PathSlot P))}
  {newer older : Option ℕ} {entries front back : List (PathKey × ℕ)} {entry : PathKey × ℕ}

lemma firstPlace_append : firstPlace (front ++ back) older = firstPlace front (firstPlace back older) := by
  cases front <;> rfl

lemma lastPlace_append : lastPlace newer (front ++ back) = lastPlace (lastPlace newer front) back := by
  induction front generalizing newer with
  | nil => rfl
  | cons entry front ih => exact ih

lemma Linked.append_iff : Linked weight slots newer (front ++ back) older ↔
    Linked weight slots newer front (firstPlace back older) ∧
      Linked weight slots (lastPlace newer front) back older := by
  induction front generalizing newer with
  | nil => simp [Linked, lastPlace]
  | cons entry front ih =>
    simp only [cons_append, Linked, firstPlace_append, lastPlace, ih, and_assoc]

lemma Linked.congr (h : Linked weight slots newer entries older)
    (hsame : ∀ place ∈ entries.map Prod.snd, shapeAt slots' place = shapeAt slots place) :
    Linked weight slots' newer entries older := by
  induction entries generalizing newer with
  | nil => trivial
  | cons entry entries ih =>
    obtain ⟨⟨path, hpath⟩, hrest⟩ := h
    refine ⟨⟨path, ?_⟩, ih hrest fun place hplace => hsame place (mem_cons_of_mem _ hplace)⟩
    rw [hsame entry.2 mem_cons_self, hpath]

/-- What a change of the slots leaves: their number, and the shapes outside `places`. -/
def SameBut (places : List ℕ) (slots slots' : List (Option (PathSlot P))) : Prop :=
  slots'.length = slots.length ∧ ∀ place ∉ places, shapeAt slots' place = shapeAt slots place

lemma modifySlot_eq {kept : KeptPaths P} {shape : PathSlot P}
    (h : shapeAt kept.slots place = some shape) (f : PathSlot P → PathSlot P) :
    kept.modifySlot place f =
      some { kept with slots := kept.slots.set place (some (f shape)) } := by
  have hslot : kept.slot place = some shape := h
  rw [modifySlot, hslot, Option.map_some]

lemma relink_older {kept : KeptPaths P} (older' : Option ℕ)
    (h : Linked weight kept.slots none entries older) (hnodup : (entries.map Prod.snd).Nodup)
    (hlast : lastPlace none entries = some place) :
    ∃ slots', kept.modifySlot place (fun shape => { shape with older := older' }) =
        some { kept with slots := slots' } ∧
      SameBut (entries.map Prod.snd) kept.slots slots' ∧
      Linked weight slots' none entries older' := by
  obtain rfl | ⟨front, entry, rfl⟩ := entries.eq_nil_or_concat
  · cases hlast
  · rw [concat_eq_append] at *
    rw [lastPlace_append] at hlast
    obtain rfl : entry.2 = place := Option.some.inj hlast
    obtain ⟨hfront, ⟨path, hpath⟩, -⟩ := Linked.append_iff.mp h
    have hset := fun shape => shapeAt_set (lt_length_of_shapeAt hpath) (some shape)
    rw [map_append, nodup_append] at hnodup
    refine ⟨_, modifySlot_eq hpath _, ⟨by simp, fun i hi => ?_⟩,
      Linked.append_iff.mpr ⟨hfront.congr fun i hi => ?_, ⟨path, ?_⟩, trivial⟩⟩
    · rw [hset, if_neg (by rintro rfl; simp at hi)]
    · rw [hset, if_neg]
      exact hnodup.2.2 i hi entry.2 (by simp)
    · rw [hset, if_pos rfl]
      rfl

lemma relink_newer {kept : KeptPaths P} (newer' : Option ℕ)
    (h : Linked weight kept.slots newer entries none) (hnodup : (entries.map Prod.snd).Nodup)
    (hfirst : firstPlace entries none = some place) :
    ∃ slots', kept.modifySlot place (fun shape => { shape with newer := newer' }) =
        some { kept with slots := slots' } ∧
      SameBut (entries.map Prod.snd) kept.slots slots' ∧
      Linked weight slots' newer' entries none := by
  cases entries with
  | nil => cases hfirst
  | cons entry entries =>
    obtain rfl : entry.2 = place := Option.some.inj hfirst
    obtain ⟨⟨path, hpath⟩, hrest⟩ := h
    have hset := fun shape => shapeAt_set (lt_length_of_shapeAt hpath) (some shape)
    rw [map_cons, nodup_cons] at hnodup
    refine ⟨_, modifySlot_eq hpath _, ⟨by simp, fun i hi => ?_⟩, ⟨path, ?_⟩,
      hrest.congr fun i hi => ?_⟩
    · rw [hset, if_neg (by rintro rfl; simp at hi)]
    · rw [hset, if_pos rfl]
    · rw [hset, if_neg]
      rintro rfl
      exact hnodup.1 hi

lemma SameBut.trans {places places' : List ℕ} {slots'' : List (Option (PathSlot P))}
    (h : SameBut places slots slots') (h' : SameBut places' slots' slots'') :
    SameBut (places ++ places') slots slots'' := by
  refine ⟨h'.1.trans h.1, fun place hplace => ?_⟩
  rw [mem_append, not_or] at hplace
  rw [h'.2 place hplace.2, h.2 place hplace.1]

structure Chain (weight : PathKey → ℕ) (kept : KeptPaths P) (entries : List (PathKey × ℕ)) :
    Prop where
  linked : Linked weight kept.slots none entries none
  newest : kept.newest = firstPlace entries none
  oldest : kept.oldest = lastPlace none entries
  nodup : (entries.map Prod.snd).Nodup

variable {kept : KeptPaths P}

lemma Chain.shape (h : Chain weight kept (front ++ entry :: back)) :
    ∃ path, shapeAt kept.slots entry.2 =
      some ⟨entry.1, path, weight entry.1, lastPlace none front, firstPlace back none⟩ :=
  (Linked.append_iff.mp h.linked).2.1

lemma Linked.unlink_newer (h : Linked weight kept.slots none front (some place))
    (hnodup : (front.map Prod.snd).Nodup) (hnewest : kept.newest = firstPlace front (some place))
    (older : Option ℕ) :
    ∃ slots',
      (match lastPlace none front with
        | none => some { kept with newest := older }
        | some newer => kept.modifySlot newer (fun shape => { shape with older := older })) =
        some { kept with slots := slots', newest := firstPlace front older } ∧
      SameBut (front.map Prod.snd) kept.slots slots' ∧ Linked weight slots' none front older := by
  cases hlast : lastPlace none front with
  | none =>
    obtain rfl : front = [] := by
      obtain rfl | ⟨front, f, rfl⟩ := front.eq_nil_or_concat
      · rfl
      · rw [concat_eq_append, lastPlace_append] at hlast
        cases hlast
    exact ⟨kept.slots, rfl, ⟨rfl, fun _ _ => rfl⟩, trivial⟩
  | some newer =>
    obtain ⟨slots', hmodify, hsame, hlinked⟩ := relink_older older h hnodup hlast
    refine ⟨slots', ?_, hsame, hlinked⟩
    have hkeep : kept.newest = firstPlace front older := by
      rw [hnewest]
      cases front with
      | nil => cases hlast
      | cons f front => rfl
    simp only [hmodify, ← hkeep]

lemma Linked.unlink_older (h : Linked weight kept.slots (some place) back none)
    (hnodup : (back.map Prod.snd).Nodup) (holdest : kept.oldest = lastPlace (some place) back)
    (newer : Option ℕ) :
    ∃ slots',
      (match firstPlace back none with
        | none => some { kept with oldest := newer }
        | some older => kept.modifySlot older (fun shape => { shape with newer := newer })) =
        some { kept with slots := slots', oldest := lastPlace newer back } ∧
      SameBut (back.map Prod.snd) kept.slots slots' ∧ Linked weight slots' newer back none := by
  cases hfirst : firstPlace back none with
  | none =>
    obtain rfl : back = [] := by
      cases back with
      | nil => rfl
      | cons b back => cases hfirst
    exact ⟨kept.slots, rfl, ⟨rfl, fun _ _ => rfl⟩, trivial⟩
  | some older =>
    obtain ⟨slots', hmodify, hsame, hlinked⟩ := relink_newer newer h hnodup hfirst
    refine ⟨slots', ?_, hsame, hlinked⟩
    have hkeep : kept.oldest = lastPlace newer back := by
      rw [holdest]
      cases back with
      | nil => cases hfirst
      | cons b back => rfl
    simp only [hmodify, ← hkeep]

lemma Chain.unlink (h : Chain weight kept (front ++ entry :: back)) :
    ∃ slots' newest' oldest', kept.unlink entry.2 =
        some { kept with slots := slots', newest := newest', oldest := oldest' } ∧
      SameBut ((front ++ back).map Prod.snd) kept.slots slots' ∧
      Chain weight { kept with slots := slots', newest := newest', oldest := oldest' }
        (front ++ back) := by
  obtain ⟨hlinked, hnewest, holdest, hnodup⟩ := h
  obtain ⟨hfront, ⟨path, hpath⟩, hback⟩ := Linked.append_iff.mp hlinked
  rw [map_append, map_cons, nodup_append, nodup_cons] at hnodup
  obtain ⟨hnodupFront, ⟨-, hnodupBack⟩, happart⟩ := hnodup
  rw [firstPlace_append] at hnewest
  rw [lastPlace_append] at holdest
  have hplaces : ((front ++ back).map Prod.snd).Nodup := by
    rw [map_append, nodup_append]
    exact ⟨hnodupFront, hnodupBack, fun i hi j hj => happart i hi j (mem_cons_of_mem _ hj)⟩
  obtain ⟨slots₁, hunlinked, hsame₁, hfront₁⟩ :=
    hfront.unlink_newer hnodupFront hnewest (firstPlace back none)
  let kept₁ : KeptPaths P :=
    { kept with slots := slots₁, newest := firstPlace front (firstPlace back none) }
  have hback₁ : Linked weight kept₁.slots (some entry.2) back none :=
    hback.congr fun i hi => hsame₁.2 i fun hfront => happart i hfront i (mem_cons_of_mem _ hi) rfl
  obtain ⟨slots₂, holder, hsame₂, hback₂⟩ :=
    hback₁.unlink_older hnodupBack holdest (lastPlace none front)
  refine ⟨slots₂, firstPlace (front ++ back) none, lastPlace none (front ++ back), ?_, ?_, ?_, rfl,
    rfl, hplaces⟩
  · have hslot : kept.slot entry.2 = _ := hpath
    rw [firstPlace_append, lastPlace_append]
    simp only [KeptPaths.unlink, hslot]
    exact (congrArg (Option.bind · _) hunlinked).trans holder
  · rw [map_append]
    exact hsame₁.trans hsame₂
  · refine Linked.append_iff.mpr ⟨hfront₁.congr fun i hi => hsame₂.2 i fun hback => ?_, hback₂⟩
    exact happart i hi i (mem_cons_of_mem _ hback) rfl

lemma Chain.linkNewest (h : Chain weight kept entries) {path : P} {newer older : Option ℕ}
    (hshape : shapeAt kept.slots entry.2 = some ⟨entry.1, path, weight entry.1, newer, older⟩)
    (hfresh : entry.2 ∉ entries.map Prod.snd) :
    ∃ slots' newest' oldest', kept.linkNewest entry.2 =
        some { kept with slots := slots', newest := newest', oldest := oldest' } ∧
      SameBut ((entry :: entries).map Prod.snd) kept.slots slots' ∧
      Chain weight { kept with slots := slots', newest := newest', oldest := oldest' }
        (entry :: entries) := by
  obtain ⟨hlinked, hnewest, holdest, hnodup⟩ := h
  have hlength := lt_length_of_shapeAt hshape
  have hset := fun shape => shapeAt_set hlength (some shape)
  let slots₁ := kept.slots.set entry.2 (some ⟨entry.1, path, weight entry.1, none, kept.newest⟩)
  have hmodify : kept.modifySlot entry.2
      (fun shape => { shape with newer := none, older := kept.newest }) =
        some { kept with slots := slots₁ } :=
    modifySlot_eq hshape _
  have hsame₁ : SameBut [entry.2] kept.slots slots₁ := by
    refine ⟨by simp [slots₁], fun i hi => ?_⟩
    rw [hset, if_neg (by simpa using hi)]
  have hfirst₁ : shapeAt slots₁ entry.2 =
      some ⟨entry.1, path, weight entry.1, none, firstPlace entries none⟩ := by
    rw [hset, if_pos rfl, hnewest]
  have hentries₁ : Linked weight slots₁ none entries none :=
    hlinked.congr fun i hi => hsame₁.2 i fun hmem => hfresh (mem_singleton.mp hmem ▸ hi)
  have hnodup' : ((entry :: entries).map Prod.snd).Nodup := nodup_cons.mpr ⟨hfresh, hnodup⟩
  rw [KeptPaths.linkNewest, hmodify, Option.bind_some]
  cases entries with
  | nil =>
    refine ⟨slots₁, some entry.2, some entry.2, ?_, hsame₁, ⟨⟨path, hfirst₁⟩, trivial⟩, rfl, rfl,
      hnodup'⟩
    rw [hnewest]
    rfl
  | cons second entries =>
    obtain ⟨slots₂, hmodify₂, hsame₂, hlinked₂⟩ := @relink_newer _ _ _ _ _
      { kept with slots := slots₁ } (some entry.2) hentries₁ hnodup rfl
    refine ⟨slots₂, some entry.2, kept.oldest, ?_, ?_, ⟨⟨path, ?_⟩, hlinked₂⟩, rfl, holdest,
      hnodup'⟩
    · split
      · rename_i hnone
        rw [hnewest] at hnone
        cases hnone
      · rename_i before hbefore
        obtain rfl : second.2 = before := Option.some.inj (hnewest.symm.trans hbefore)
        rw [hmodify₂]
        rfl
    · exact hsame₁.trans hsame₂
    · rw [hsame₂.2 entry.2 hfresh, hfirst₁]

/-- The cache keeps the shapes of `entries`, the newest drawn first. -/
structure Holds (weight : PathKey → ℕ) (kept : KeptPaths P) (entries : List (PathKey × ℕ)) :
    Prop where
  chain : Chain weight kept entries
  keys : (entries.map Prod.fst).Nodup
  index : ∀ key place, kept.index.get? key = some place ↔ (key, place) ∈ entries
  bytes : kept.bytes = ((entries.map Prod.fst).map weight).sum
  vacantNodup : kept.vacant.Nodup
  vacant : ∀ place ∈ kept.vacant,
    place < kept.slots.length ∧ shapeAt kept.slots place = none

def SameSettings (kept kept' : KeptPaths P) : Prop :=
  kept'.limit = kept.limit ∧ kept'.shapes = kept.shapes ∧ kept'.heavy = kept.heavy

lemma SameSettings.trans {kept' kept'' : KeptPaths P} (h : SameSettings kept kept')
    (h' : SameSettings kept' kept'') : SameSettings kept kept'' :=
  ⟨h'.1.trans h.1, h'.2.1.trans h.2.1, h'.2.2.trans h.2.2⟩

lemma holds_new (limit shapes : ℕ) : Holds weight (new limit shapes : KeptPaths P) [] where
  chain := ⟨trivial, rfl, rfl, nodup_nil⟩
  keys := nodup_nil
  index := by simp [new]
  bytes := rfl
  vacantNodup := nodup_nil
  vacant := by simp [new]

lemma Holds.index_size (h : Holds weight kept entries) : kept.index.size = entries.length := by
  have hentries : entries.Nodup := Nodup.of_map _ h.keys
  have hindex : kept.index.entries.Nodup := Nodup.of_map _ kept.index.nodup
  refine ((perm_ext_iff_of_nodup hindex hentries).mpr fun entry => ?_).length_eq
  rw [← h.index, KeyMap.get?_eq_some]

lemma Linked.shape_isSome (h : Linked weight slots newer entries older)
    (hplace : place ∈ entries.map Prod.snd) : (shapeAt slots place).isSome := by
  induction entries generalizing newer with
  | nil => cases hplace
  | cons entry entries ih =>
    obtain ⟨⟨path, hpath⟩, hrest⟩ := h
    rcases mem_cons.mp hplace with rfl | hplace
    · simp [hpath]
    · exact ih hrest hplace

lemma Holds.fresh_of_none (h : Holds weight kept entries) (hnone : shapeAt kept.slots place = none) :
    place ∉ entries.map Prod.snd := by
  intro hmem
  have hsome := h.chain.linked.shape_isSome hmem
  rw [hnone] at hsome
  cases hsome

lemma Holds.vacant_of_sameBut (h : Holds weight kept entries) {places : List ℕ}
    (hsame : SameBut places kept.slots slots') (hplaces : places ⊆ entries.map Prod.snd) :
    ∀ place ∈ kept.vacant, place < slots'.length ∧ shapeAt slots' place = none := by
  intro place hplace
  obtain ⟨hlt, hnone⟩ := h.vacant place hplace
  rw [hsame.1, hsame.2 place fun hmem => h.fresh_of_none hnone (hplaces hmem)]
  exact ⟨hlt, hnone⟩

lemma Holds.get_kept (h : Holds weight kept (front ++ entry :: back)) :
    ∃ kept' path, kept.get entry.1 = some (kept', some path) ∧
      Holds weight kept' (entry :: (front ++ back)) ∧ SameSettings kept kept' := by
  have hindex : kept.index.get? entry.1 = some entry.2 := (h.index _ _).mpr (by simp)
  have hperm : (entry :: (front ++ back)).Perm (front ++ entry :: back) := perm_middle.symm
  obtain ⟨path, hpath⟩ := h.chain.shape
  obtain ⟨slots₁, newest₁, oldest₁, hunlink, hsame₁, hchain₁⟩ := h.chain.unlink
  have hfresh : entry.2 ∉ (front ++ back).map Prod.snd :=
    (nodup_cons.mp ((hperm.map Prod.snd).nodup_iff.mpr h.chain.nodup)).1
  rw [← hsame₁.2 entry.2 hfresh] at hpath
  obtain ⟨slots₂, newest₂, oldest₂, hlink, hsame₂, hchain₂⟩ := hchain₁.linkNewest hpath hfresh
  obtain ⟨⟨path₂, hpath₂⟩, -⟩ := hchain₂.linked
  simp only [KeptPaths.get, hindex]
  by_cases hnewest : kept.newest = some entry.2
  · -- The newest already: the front is empty.
    have hfront : front = [] := by
      cases front with
      | nil => rfl
      | cons first front =>
        rw [h.chain.newest] at hnewest
        obtain heq : first.2 = entry.2 := Option.some.inj hnewest
        exact absurd (by simp [heq]) hfresh
    subst hfront
    obtain ⟨path, hpath⟩ := h.chain.shape
    have hslot : kept.slot entry.2 = _ := hpath
    refine ⟨kept, path, ?_, h, rfl, rfl, rfl⟩
    simp [hnewest, hslot]
  · have hslot : ({ kept with slots := slots₂, newest := newest₂, oldest := oldest₂ } :
        KeptPaths P).slot entry.2 = _ := hpath₂
    have hmap : ∀ e, e ∈ entry :: (front ++ back) ↔ e ∈ front ++ entry :: back :=
      fun e => hperm.mem_iff
    refine ⟨{ kept with slots := slots₂, newest := newest₂, oldest := oldest₂ }, path₂, ?_,
      ⟨hchain₂, (hperm.map Prod.fst).nodup_iff.mpr h.keys, fun key place => ?_, ?_, h.vacantNodup,
        ?_⟩, rfl, rfl, rfl⟩
    · rw [if_pos hnewest, hunlink, Option.bind_some, hlink, Option.bind_some, hslot]
      rfl
    · rw [hmap]
      exact h.index key place
    · rw [((hperm.map Prod.fst).map weight).sum_eq]
      exact h.bytes
    · refine h.vacant_of_sameBut (hsame₁.trans hsame₂) fun place hplace => ?_
      rw [← (hperm.map Prod.snd).mem_iff]
      rcases mem_append.mp hplace with hplace | hplace
      · exact mem_cons_of_mem _ hplace
      · exact hplace

lemma Holds.letGoOfOldest (h : Holds weight kept (entries ++ [entry])) :
    ∃ kept', kept.letGoOfOldest = some kept' ∧ Holds weight kept' entries ∧
      SameSettings kept kept' := by
  obtain ⟨path, hpath⟩ := h.chain.shape
  obtain ⟨slots₁, newest₁, oldest₁, hunlink, hsame₁, hchain₁⟩ := h.chain.unlink
  rw [append_nil] at hsame₁ hchain₁
  have hplaces := h.chain.nodup
  rw [map_append, nodup_append] at hplaces
  have hkeys := h.keys
  rw [map_append, nodup_append] at hkeys
  have hfresh : entry.2 ∉ entries.map Prod.snd :=
    fun hmem => hplaces.2.2 entry.2 hmem entry.2 (by simp) rfl
  have holdest : kept.oldest = some entry.2 := by
    rw [h.chain.oldest, lastPlace_append]
    rfl
  rw [← hsame₁.2 entry.2 hfresh] at hpath
  have hset := shapeAt_set (lt_length_of_shapeAt hpath) none
  have hslot : ({ kept with slots := slots₁, newest := newest₁, oldest := oldest₁ } :
      KeptPaths P).slot entry.2 = _ := hpath
  rw [KeptPaths.letGoOfOldest, holdest, Option.bind_some, hunlink, Option.bind_some, hslot]
  refine ⟨_, rfl, ⟨⟨hchain₁.linked.congr fun place hplace => ?_, hchain₁.newest, hchain₁.oldest,
    hchain₁.nodup⟩, hkeys.1, fun key place => ?_, ?_, nodup_cons.mpr ⟨?_, h.vacantNodup⟩,
    fun place hplace => ?_⟩, rfl, rfl, rfl⟩
  · rw [hset, if_neg]
    rintro rfl
    exact hfresh hplace
  · rw [KeyMap.get?_filter, Option.filter_eq_some_iff, h.index, mem_append, mem_singleton]
    simp only [decide_eq_true_eq]
    constructor
    · rintro ⟨hmem | heq, hne⟩
      · exact hmem
      · exact absurd (congrArg Prod.fst heq) hne
    · intro hmem
      refine ⟨.inl hmem, fun heq => ?_⟩
      exact hkeys.2.2 key (mem_map_of_mem hmem) entry.1 (by simp) heq
  · simp only [h.bytes, map_append, map_cons, map_nil, sum_append, sum_cons, sum_nil]
    omega
  · intro hmem
    have hnone := (h.vacant _ hmem).2
    rw [← hsame₁.2 entry.2 hfresh, hpath] at hnone
    cases hnone
  · rw [length_set, hset]
    rcases mem_cons.mp hplace with rfl | hplace
    · exact ⟨lt_length_of_shapeAt hpath, if_pos rfl⟩
    · obtain ⟨hlt, hnone⟩ := h.vacant_of_sameBut hsame₁ (by simp) place hplace
      refine ⟨hlt, ?_⟩
      split
      · rfl
      · exact hnone

lemma Holds.makeRoom {bytes fuel : ℕ} (h : Holds weight kept entries)
    (hbytes : bytes ≤ kept.limit) (hshapes : 0 < kept.shapes) (hfuel : entries.length < fuel) :
    ∃ kept' entries', kept.makeRoom bytes fuel = some kept' ∧ Holds weight kept' entries' ∧
      SameSettings kept kept' ∧ entries'.map Prod.fst =
        Recency.takeFits weight (kept.limit - bytes) (kept.shapes - 1) (entries.map Prod.fst) := by
  induction fuel generalizing kept entries with
  | zero => omega
  | succ fuel ih =>
    rw [KeptPaths.makeRoom]
    split
    · rename_i hfull
      rw [h.index_size, h.bytes] at hfull
      obtain rfl | ⟨front, entry, rfl⟩ := entries.eq_nil_or_concat
      · simp only [map_nil, sum_nil, length_nil] at hfull
        omega
      · rw [concat_eq_append] at *
        obtain ⟨kept₁, hletGo, hholds₁, hsame₁⟩ := h.letGoOfOldest
        obtain ⟨hlimit, hcount, -⟩ := id hsame₁
        rw [length_append, length_singleton] at hfuel
        obtain ⟨kept₂, entries₂, hroom, hholds₂, hsame₂, hkeys⟩ :=
          ih hholds₁ (hlimit ▸ hbytes) (hcount ▸ hshapes) (by omega)
        refine ⟨kept₂, entries₂, ?_, hholds₂, hsame₁.trans hsame₂, ?_⟩
        · rw [hletGo, Option.bind_some, hroom]
        · simp only [map_append, map_cons, map_nil, sum_append, sum_cons,
            sum_nil, length_append, length_cons, length_nil] at hfull
          rw [hkeys, hlimit, hcount, map_append, map_singleton, Recency.takeFits_concat]
          rw [length_map]
          omega
    · rename_i hfits
      rw [h.index_size, h.bytes] at hfits
      refine ⟨kept, entries, rfl, h, ⟨rfl, rfl, rfl⟩, ?_⟩
      rw [Recency.takeFits_eq_self (by omega) (by rw [length_map]; omega)]

lemma Holds.occupy (h : Holds weight kept entries) (shape : PathSlot P) :
    ∃ slots' vacant' place, kept.occupy shape =
        ({ kept with slots := slots', vacant := vacant' }, place) ∧
      shapeAt slots' place = some shape ∧ shapeAt kept.slots place = none ∧
      (∀ i, i ≠ place → shapeAt slots' i = shapeAt kept.slots i) ∧
      kept.slots.length ≤ slots'.length ∧
      vacant'.Nodup ∧ vacant' ⊆ kept.vacant ∧ place ∉ vacant' := by
  unfold KeptPaths.occupy
  cases hvacant : kept.vacant with
  | nil =>
    have hnone : shapeAt kept.slots kept.slots.length = none := by simp [shapeAt]
    refine ⟨kept.slots ++ [some shape], [], kept.slots.length, ?_, ?_, hnone, fun i hi => ?_,
      by simp, nodup_nil, nil_subset _, not_mem_nil⟩
    · simp only [← hvacant]
    · simp [shapeAt]
    · rcases Nat.lt_or_gt_of_ne hi with hlt | hgt
      · rw [shapeAt, getElem?_append_left hlt, shapeAt]
      · rw [shapeAt, shapeAt, getElem?_eq_none (Nat.le_of_lt hgt), getElem?_eq_none]
        rw [length_append, length_singleton]
        exact hgt
  | cons place vacant =>
    obtain ⟨hlt, hnone⟩ := h.vacant place (by simp [hvacant])
    have hnodup := h.vacantNodup
    rw [hvacant, nodup_cons] at hnodup
    have hset := shapeAt_set hlt (some shape)
    refine ⟨kept.slots.set place (some shape), vacant, place, rfl, ?_, hnone, fun i hi => ?_,
      by simp, hnodup.2, subset_cons_self _ _, hnodup.1⟩
    · rw [hset, if_pos rfl]
    · rw [hset, if_neg hi]

lemma Holds.insert_light {capacity : P → ℕ} {key : PathKey} {path : P}
    (h : Holds weight kept entries) (hkey : key ∉ entries.map Prod.fst)
    (hweight : pathWeight capacity key path = weight key) (hlight : weight key ≤ kept.limit)
    (hshapes : 0 < kept.shapes) :
    ∃ kept' entries', kept.insert capacity key path = some kept' ∧ Holds weight kept' entries' ∧
      SameSettings kept kept' ∧ entries'.map Prod.fst = key ::
        Recency.takeFits weight (kept.limit - weight key) (kept.shapes - 1)
          (entries.map Prod.fst) := by
  obtain ⟨kept₁, entries₁, hroom, hholds₁, hsame₁, hkeys⟩ :=
    h.makeRoom hlight hshapes (Nat.lt_succ_self entries.length)
  have hkey₁ : key ∉ entries₁.map Prod.fst := by
    rw [hkeys]
    exact fun hmem => hkey (Recency.takeFits_isPrefix.subset hmem)
  obtain ⟨slots₂, vacant₂, place, hplaced, hshape, hfresh, hothers, hlength, hvacant⟩ :=
    hholds₁.occupy ⟨key, path, weight key, none, none⟩
  have hnotin := hholds₁.fresh_of_none hfresh
  let kept₂ : KeptPaths P := { kept₁ with
    slots := slots₂, vacant := vacant₂, index := kept₁.index.insert key place }
  have hchain₂ : Chain weight kept₂ entries₁ := by
    obtain ⟨hlinked, hnewest, holdest, hnodup⟩ := hholds₁.chain
    refine ⟨hlinked.congr fun i hi => hothers i ?_, hnewest, holdest, hnodup⟩
    rintro rfl
    exact hnotin hi
  obtain ⟨slots₃, newest₃, oldest₃, hlink, hsame₃, hchain₃⟩ :=
    @Chain.linkNewest _ _ _ (key, place) kept₂ hchain₂ path none none hshape hnotin
  refine ⟨{ kept₂ with
      slots := slots₃, newest := newest₃, oldest := oldest₃, bytes := kept₁.bytes + weight key },
    (key, place) :: entries₁, ?_,
    ⟨⟨hchain₃.linked, hchain₃.newest, hchain₃.oldest, hchain₃.nodup⟩,
      nodup_cons.mpr ⟨hkey₁, hholds₁.keys⟩, fun key' place' => ?_, ?_, hvacant.1,
      fun i hi => ?_⟩, hsame₁, ?_⟩
  · rw [KeptPaths.insert]
    simp only [hweight, Nat.not_lt.mpr hlight, if_false, h.index_size, hroom, Option.bind_some,
      hplaced]
    rw [hlink]
    rfl
  · rw [KeyMap.get?_insert, mem_cons, Prod.mk.injEq]
    split
    · rename_i heq
      subst heq
      have hnone : (key', place') ∉ entries₁ := fun hmem => hkey₁ (mem_map_of_mem hmem)
      simp [hnone, eq_comm]
    · rename_i hne
      simp [hne, hholds₁.index]
  · simp only [hholds₁.bytes, map_cons, sum_cons]
    omega
  · obtain ⟨hlt, hnone⟩ := hholds₁.vacant i (hvacant.2.1 hi)
    have hne : i ≠ place := by
      rintro rfl
      exact hvacant.2.2 hi
    refine ⟨?_, ?_⟩
    · rw [hsame₃.1]
      exact hlt.trans_le hlength
    · rw [hsame₃.2 i, hothers i hne, hnone]
      rw [map_cons, mem_cons, not_or]
      exact ⟨hne, hholds₁.fresh_of_none hnone⟩
  · rw [map_cons, hkeys]

end KeptPaths

end GpuiFast
