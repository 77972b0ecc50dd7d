import GpuiFast.SurfaceStarts
import Mathlib.Data.List.DropRight

namespace GpuiFast

open List

/-- What painting does on a surface: an operation painted, or a place where it has to be current. -/
inductive Mark (S : Type*) where
  | stay (surface : S)
  | paint (surface : S)

namespace Mark

variable {S : Type*}

def isStay : Mark S → Bool
  | stay _ => true
  | paint _ => false

def paints (marks : List (Mark S)) : List S :=
  marks.filterMap fun
    | stay _ => none
    | paint surface => some surface

@[simp] lemma paints_nil : paints ([] : List (Mark S)) = [] := rfl

variable (surface : S) (marks : List (Mark S)) {more : List (Mark S)}

@[simp] lemma paints_stay : paints (stay surface :: marks) = paints marks := rfl

@[simp] lemma paints_paint : paints (paint surface :: marks) = surface :: paints marks := rfl

@[simp] lemma paints_append (more : List (Mark S)) :
    paints (marks ++ more) = paints marks ++ paints more := by
  simp [paints]

lemma paints_eq_nil_iff {marks : List (Mark S)} :
    paints marks = [] ↔ ∀ mark ∈ marks, mark.isStay = true := by
  induction marks with
  | nil => simp
  | cons mark marks ih => cases mark <;> simp [isStay, ih]

/-- The marks up to the last operation painted. -/
def trim (marks : List (Mark S)) : List (Mark S) := marks.rdropWhile isStay

lemma paints_trim : paints (trim marks) = paints marks := by
  induction marks using reverseRecOn with
  | nil => rfl
  | append_singleton marks mark ih =>
    cases mark with
    | stay surface =>
      rw [trim, rdropWhile_concat_pos _ _ _ rfl]
      simpa [trim] using ih
    | paint surface => rw [trim, rdropWhile_concat_neg _ _ _ (by simp [isStay])]

lemma trim_eq_nil {marks : List (Mark S)} (h : paints marks = []) : trim marks = [] := by
  rw [trim, rdropWhile_eq_nil_iff]
  exact paints_eq_nil_iff.mp h

lemma trim_append_of_stays {marks : List (Mark S)} (h : paints more = []) :
    trim (marks ++ more) = trim marks := by
  induction more using reverseRecOn with
  | nil => rw [append_nil]
  | append_singleton more mark ih =>
    cases mark with
    | stay surface =>
      rw [← append_assoc, trim, rdropWhile_concat_pos _ _ _ rfl]
      exact ih (by simpa using h)
    | paint surface => simp at h

lemma trim_append_of_paints {marks : List (Mark S)} (h : paints more ≠ []) :
    trim (marks ++ more) = marks ++ trim more := by
  induction more using reverseRecOn with
  | nil => simp at h
  | append_singleton more mark ih =>
    rw [← append_assoc]
    cases mark with
    | stay surface =>
      rw [trim, rdropWhile_concat_pos _ _ _ rfl, trim, rdropWhile_concat_pos _ _ _ rfl]
      exact ih (by simpa using h)
    | paint surface =>
      rw [trim, rdropWhile_concat_neg _ _ _ (by simp [isStay]), trim,
        rdropWhile_concat_neg _ _ _ (by simp [isStay]), append_assoc]

lemma trim_cons_of_paints {mark : Mark S} {marks : List (Mark S)} (h : paints marks ≠ []) :
    trim (mark :: marks) = mark :: trim marks := by
  rw [← singleton_append, trim_append_of_paints h, singleton_append]

lemma trim_prefix : ∃ stays, marks = trim marks ++ stays ∧ ∀ mark ∈ stays, mark.isStay = true := by
  refine ⟨marks.rtakeWhile isStay, ?_, fun mark hmark => ?_⟩
  · simp [trim, rdropWhile, rtakeWhile, ← reverse_append]
  · exact mem_rtakeWhile_imp hmark

lemma trim_trim : trim (trim marks) = trim marks :=
  rdropWhile_idempotent _ _

/-- After the last operation painted every mark asks for the surface. -/
def Settled (surface : S) (marks : List (Mark S)) : Prop :=
  ∀ stays, stays <:+ marks → (∀ mark ∈ stays, mark.isStay = true) →
    ∀ mark ∈ stays, mark = stay surface

lemma settled_nil : Settled surface ([] : List (Mark S)) := by
  intro stays hstays _ mark hmark
  simp_all

lemma settled_paint (painted : S) : Settled surface [paint painted] := by
  intro stays hstays hall mark hmark
  have hmem := hstays.subset hmark
  have := hall mark hmark
  simp_all [isStay]

lemma settled_stay : Settled surface [stay surface] := by
  intro stays hstays _ mark hmark
  simpa using hstays.subset hmark

lemma settled_trim : Settled surface (trim marks) := by
  intro stays hstays hall mark hmark
  obtain ⟨front, hfront⟩ := hstays
  exfalso
  have hdrop := trim_trim marks
  rw [← hfront] at hdrop
  have hshort : (trim (front ++ stays)).length ≤ front.length := by
    rw [trim_append_of_stays (paints_eq_nil_iff.mpr hall)]
    exact ( rdropWhile_prefix _ _).length_le
  rw [hdrop] at hshort
  have hpos := length_pos_of_mem hmark
  simp only [length_append] at hshort
  omega

lemma Settled.append {surface : S} {marks : List (Mark S)} (h : Settled surface marks)
    (hmore : Settled surface more) : Settled surface (marks ++ more) := by
  rintro stays ⟨front, hfront⟩ hall mark hmark
  rcases append_eq_append_iff.mp hfront with ⟨middle, rfl, rfl⟩ | ⟨middle, rfl, rfl⟩
  rotate_left
  · exact hmore stays (suffix_append _ _) hall mark hmark
  · rcases mem_append.mp hmark with hmark | hmark
    · exact h middle (suffix_append _ _)
        (fun mark hmark => hall mark (mem_append_left _ hmark)) mark hmark
    · exact hmore more (suffix_refl _)
        (fun mark hmark => hall mark (mem_append_right _ hmark)) mark hmark

end Mark

namespace SurfaceStarts

variable {S : Type*}

lemma current_cons (entry : S × ℕ) (starts : SurfaceStarts S) :
    current (entry :: starts) = some (starts.current.getD entry.1) := by
  rw [current, current, getLast?_cons]
  cases starts.getLast? <;> rfl

lemma surfaceAt_cons (surface : S) (start stop index : ℕ) (ranges : List (S × ℕ × ℕ)) :
    surfaceAt ((surface, start, stop) :: ranges) index =
      if start ≤ index ∧ index < stop then some surface else surfaceAt ranges index := by
  simp only [surfaceAt, find?_cons]
  by_cases h : start ≤ index ∧ index < stop <;> simp [h]

end SurfaceStarts

/-- The starts go with the marks: from one surface and scene length to another, each mark is made on
the surface the starts have switched to. -/
inductive Walk {S : Type*} : S → ℕ → SurfaceStarts S → List (Mark S) → S → ℕ → Prop
  | nil {surface : S} {length : ℕ} : Walk surface length [] [] surface length
  | switch {surface next last : S} {length stop : ℕ} {starts : SurfaceStarts S}
      {marks : List (Mark S)} (walk : Walk next length starts marks last stop) :
      Walk surface length ((next, length) :: starts) marks last stop
  | stay {surface last : S} {length stop : ℕ} {starts : SurfaceStarts S} {marks : List (Mark S)}
      (walk : Walk surface length starts marks last stop) :
      Walk surface length starts (.stay surface :: marks) last stop
  | paint {surface last : S} {length stop : ℕ} {starts : SurfaceStarts S} {marks : List (Mark S)}
      (walk : Walk surface (length + 1) starts marks last stop) :
      Walk surface length starts (.paint surface :: marks) last stop

namespace Walk

open Mark

variable {S : Type*} {surface middle last : S} {length between stop : ℕ}
  {starts more : SurfaceStarts S} {marks rest : List (Mark S)}

lemma append (h : Walk surface length starts marks middle between)
    (hmore : Walk middle between more rest last stop) :
    Walk surface length (starts ++ more) (marks ++ rest) last stop := by
  induction h with
  | nil => exact hmore
  | switch _ ih => exact .switch (ih hmore)
  | stay _ ih => exact .stay (ih hmore)
  | paint _ ih => exact .paint (ih hmore)

lemma split (h : Walk surface length starts (marks ++ rest) last stop) :
    ∃ front back middle between, starts = front ++ back ∧
      Walk surface length front marks middle between ∧ Walk middle between back rest last stop := by
  generalize hall : marks ++ rest = all at h
  induction h generalizing marks with
  | @nil surface length =>
    obtain ⟨rfl, rfl⟩ := append_eq_nil_iff.mp hall
    exact ⟨[], [], surface, length, rfl, .nil, .nil⟩
  | @switch surface next last length stop starts all walk ih =>
    cases marks with
    | nil =>
      rw [nil_append] at hall
      exact ⟨[], _, surface, length, rfl, .nil, hall ▸ .switch walk⟩
    | cons mark marks =>
      obtain ⟨front, back, middle, between, rfl, hfront, hback⟩ := ih hall
      exact ⟨_ :: front, back, middle, between, rfl, .switch hfront, hback⟩
  | @stay surface last length stop starts all walk ih =>
    cases marks with
    | nil =>
      rw [nil_append] at hall
      exact ⟨[], _, surface, length, rfl, .nil, hall ▸ .stay walk⟩
    | cons mark marks =>
      obtain ⟨rfl, htail⟩ := cons_eq_cons.mp hall
      obtain ⟨front, back, middle, between, rfl, hfront, hback⟩ := ih htail
      exact ⟨front, back, middle, between, rfl, .stay hfront, hback⟩
  | @paint surface last length stop starts all walk ih =>
    cases marks with
    | nil =>
      rw [nil_append] at hall
      exact ⟨[], _, surface, length, rfl, .nil, hall ▸ .paint walk⟩
    | cons mark marks =>
      obtain ⟨rfl, htail⟩ := cons_eq_cons.mp hall
      obtain ⟨front, back, middle, between, rfl, hfront, hback⟩ := ih htail
      exact ⟨front, back, middle, between, rfl, .paint hfront, hback⟩

section

variable (h : Walk surface length starts marks last stop)
include h

lemma stop_eq : stop = length + (paints marks).length := by
  induction h with
  | nil => rfl
  | switch _ ih => exact ih
  | stay _ ih => simpa using ih
  | paint _ ih =>
    rw [ih, paints_paint, length_cons]
    omega

lemma bounds : ∀ entry ∈ starts, length ≤ entry.2 ∧ entry.2 ≤ stop := by
  induction h with
  | nil => simp
  | @switch surface next last length stop starts marks walk ih =>
    intro entry hentry
    rcases mem_cons.mp hentry with rfl | hentry
    · have := walk.stop_eq
      exact ⟨le_rfl, by omega⟩
    · exact ih entry hentry
  | stay _ ih => exact ih
  | paint _ ih => exact fun entry hentry => ⟨by have := ih entry hentry; omega, (ih entry hentry).2⟩

lemma ordered : starts.Pairwise (·.2 ≤ ·.2) := by
  induction h with
  | nil => exact .nil
  | switch walk ih => exact .cons (fun entry hentry => (walk.bounds entry hentry).1) ih
  | stay _ ih => exact ih
  | paint _ ih => exact ih

lemma last_eq : last = starts.current.getD surface := by
  induction h with
  | nil => rfl
  | switch walk ih => rw [ih, SurfaceStarts.current_cons, Option.getD_some]
  | stay _ ih => exact ih
  | paint _ ih => exact ih

lemma current_append {before : SurfaceStarts S} (hbefore : before.current = some surface) :
    (before ++ starts).current = some last := by
  rw [h.last_eq, SurfaceStarts.current, getLast?_append]
  cases hlast : starts.getLast? with
  | none => simpa [SurfaceStarts.current, hlast] using hbefore
  | some entry => simp [SurfaceStarts.current, hlast]

end

lemma at_stay (h : Walk surface length starts (marks ++ .stay middle :: rest) last stop) :
    ∃ front back between, starts = front ++ back ∧
      Walk surface length front marks middle between ∧ Walk middle between back rest last stop := by
  obtain ⟨front, back, reached, between, rfl, hfront, hback⟩ := h.split
  generalize hall : Mark.stay middle :: rest = all at hback
  induction hback generalizing surface length front marks with
  | nil => simp at hall
  | @switch reached next last between stop back all walk ih =>
    obtain ⟨front', back', between', heq, hfront', hback'⟩ :=
      ih (front ++ [(next, between)])
        (by simpa using (hfront.append (.switch .nil)).append (hall ▸ walk))
        (by simpa using hfront.append (.switch .nil)) hall
    exact ⟨front', back', between', by simpa using heq, hfront', hback'⟩
  | @stay reached last between stop back all walk ih =>
    obtain ⟨hmiddle, rfl⟩ := cons_eq_cons.mp hall
    cases hmiddle
    exact ⟨front, back, between, rfl, hfront, walk⟩
  | paint walk ih => simp at hall

lemma of_append_stays (h : Walk surface length starts (marks ++ rest) last stop)
    (hrest : ∀ mark ∈ rest, mark.isStay = true) : Walk surface length starts marks last stop := by
  obtain ⟨front, back, middle, between, rfl, hfront, hback⟩ := h.split
  have hskip : Walk middle between back [] last stop := by
    clear h hfront
    induction hback with
    | nil => exact .nil
    | switch _ ih => exact .switch (ih hrest)
    | stay _ ih => exact ih fun mark hmark => hrest mark (mem_cons_of_mem _ hmark)
    | paint _ _ => simpa [isStay] using hrest _ mem_cons_self
  simpa using hfront.append hskip

/-- Along a walk the ranges exist, and each operation lies on the surface it was painted on. -/
lemma composedRanges (h : Walk surface length starts marks last stop) :
    ∃ ranges, SurfaceStarts.composedRanges ((surface, length) :: starts) stop = some ranges ∧
      ∀ index < (paints marks).length,
        SurfaceStarts.surfaceAt ranges (length + index) = (paints marks)[index]? := by
  induction h with
  | nil => exact ⟨[], by simp [SurfaceStarts.composedRanges], by simp⟩
  | @switch surface next last length stop starts marks walk ih =>
    obtain ⟨ranges, hranges, hat⟩ := ih
    refine ⟨ranges, ?_, hat⟩
    have := walk.stop_eq
    rw [SurfaceStarts.composedRanges, hranges]
    simp
    omega
  | stay _ ih => exact ih
  | @paint surface last length stop starts marks walk ih =>
    obtain ⟨ranges, hranges, hat⟩ := ih
    rw [SurfaceStarts.composedRanges] at hranges
    set next := (starts.head?.map Prod.snd).getD stop with hnext
    simp only [Option.ite_none_left_eq_some, not_or, not_lt, Option.map_eq_some_iff] at hranges
    obtain ⟨⟨hle, hstop⟩, tail, htail, rfl⟩ := hranges
    refine ⟨(surface, length, next) :: tail, ?_, fun index hindex => ?_⟩
    · rw [SurfaceStarts.composedRanges, htail, ← hnext, if_neg (by omega)]
      simp only [Option.map_some]
      rw [if_pos (by omega)]
    · rw [SurfaceStarts.surfaceAt_cons]
      cases index with
      | zero => rw [if_pos ⟨by omega, by omega⟩]; rfl
      | succ index =>
        have hprev := hat index (by simpa using hindex)
        rw [paints_paint, getElem?_cons_succ, ← hprev, show length + (index + 1) = length + 1 + index by omega]
        by_cases hin : length + 1 + index < next
        · rw [if_pos ⟨by omega, hin⟩, if_pos (by omega), SurfaceStarts.surfaceAt_cons,
            if_pos ⟨by omega, hin⟩]
        · rw [if_neg (by omega)]
          split
          · rw [SurfaceStarts.surfaceAt_cons, if_neg (by omega)]
          · rfl

/-- The starts below the end of the walk lead as far as its last operation. -/
lemma cut (h : Walk surface length starts marks last stop) :
    ∃ before trailing stays middle, marks = before ++ stays ∧ (∀ mark ∈ stays, mark.isStay = true) ∧
      Walk surface length (starts.filter (·.2 < stop)) before middle stop ∧
      starts = starts.filter (·.2 < stop) ++ trailing := by
  have hend : ∀ {surface last : S} {stop : ℕ} {starts : SurfaceStarts S} {marks : List (Mark S)},
      Walk surface stop starts marks last stop →
      ∃ before trailing stays middle, marks = before ++ stays ∧
        (∀ mark ∈ stays, mark.isStay = true) ∧
        Walk surface stop (starts.filter (·.2 < stop)) before middle stop ∧
        starts = starts.filter (·.2 < stop) ++ trailing := by
    intro surface last stop starts marks h
    have hnone : starts.filter (·.2 < stop) = [] := by
      rw [filter_eq_nil_iff]
      intro entry hentry
      have := h.bounds entry hentry
      simp
      omega
    have hstays : paints marks = [] := by
      have := h.stop_eq
      rw [← length_eq_zero_iff]
      omega
    exact ⟨[], starts, marks, surface, rfl, paints_eq_nil_iff.mp hstays, hnone ▸ .nil, by simp [hnone]⟩
  induction h with
  | nil => exact hend .nil
  | @switch surface next last length stop starts marks walk ih =>
    by_cases hstop : length = stop
    · subst hstop
      exact hend (.switch walk)
    · obtain ⟨before, trailing, stays, middle, hmarks, hstays, hwalk, hstarts⟩ := ih
      have hle := walk.stop_eq
      have hkeep : ((next, length) :: starts).filter (·.2 < stop) =
          (next, length) :: starts.filter (·.2 < stop) := by
        rw [filter_cons_of_pos (by simp; omega)]
      refine ⟨before, trailing, stays, middle, hmarks, hstays, hkeep ▸ .switch hwalk, ?_⟩
      rw [hkeep, cons_append, ← hstarts]
  | @stay surface last length stop starts marks walk ih =>
    obtain ⟨before, trailing, stays, middle, rfl, hstays, hwalk, hstarts⟩ := ih
    exact ⟨.stay surface :: before, trailing, stays, middle, rfl, hstays, .stay hwalk, hstarts⟩
  | @paint surface last length stop starts marks walk ih =>
    obtain ⟨before, trailing, stays, middle, rfl, hstays, hwalk, hstarts⟩ := ih
    exact ⟨.paint surface :: before, trailing, stays, middle, rfl, hstays, .paint hwalk, hstarts⟩

lemma of_same_length (hstarts : ∀ entry ∈ starts, entry.2 = length) :
    Walk surface length starts [] (starts.current.getD surface) length := by
  induction starts generalizing surface with
  | nil => exact .nil
  | cons entry starts ih =>
    obtain ⟨next, start⟩ := entry
    obtain rfl : start = length := hstarts _ mem_cons_self
    have hwalk := @ih next fun entry hentry => hstarts entry (mem_cons_of_mem _ hentry)
    rw [SurfaceStarts.current_cons]
    exact .switch hwalk

lemma of_settled {stays : List (Mark S)} (hstays : ∀ mark ∈ stays, mark = .stay surface) :
    Walk surface length [] stays surface length := by
  induction stays with
  | nil => exact .nil
  | cons mark stays ih =>
    obtain rfl := hstays mark mem_cons_self
    exact .stay (ih fun mark hmark => hstays mark (mem_cons_of_mem _ hmark))

/-- Copied by `switchTo`, a walk stays a walk, shifted to its target. -/
lemma foldl_switchTo [DecidableEq S] {before : SurfaceStarts S} {source : ℕ}
    (h : Walk surface length starts marks last stop) (hsource : source ≤ length)
    (hbefore : before.current = some surface) (target : ℕ) :
    ∃ new, starts.foldl (fun starts entry => starts.switchTo entry.1 (entry.2 - source + target))
        before = before ++ new ∧
      Walk surface (length - source + target) new marks last (stop - source + target) := by
  induction h generalizing before with
  | nil => exact ⟨[], by simp, .nil⟩
  | @switch surface next last length stop starts marks walk ih =>
    rw [foldl_cons, SurfaceStarts.switchTo, hbefore]
    by_cases hsame : some surface = some next
    · obtain rfl := Option.some.inj hsame
      rw [if_pos rfl]
      exact ih hsource hbefore
    · rw [if_neg hsame]
      obtain ⟨new, hnew, hwalk⟩ := @ih (before ++ [(next, length - source + target)]) hsource
        (by simp [SurfaceStarts.current])
      exact ⟨(next, length - source + target) :: new, by simp [hnew], .switch hwalk⟩
  | stay walk ih =>
    obtain ⟨new, hnew, hwalk⟩ := ih hsource hbefore
    exact ⟨new, hnew, .stay hwalk⟩
  | @paint surface last length stop starts marks walk ih =>
    obtain ⟨new, hnew, hwalk⟩ := ih (by omega) hbefore
    rw [show length + 1 - source + target = length - source + target + 1 by omega] at hwalk
    exact ⟨new, hnew, .paint hwalk⟩

end Walk

/-- The starts are in order and leave the surface current. -/
structure LeadsTo {S : Type*} (starts : SurfaceStarts S) (surface : S) (length : ℕ) : Prop where
  ordered : starts.Pairwise (·.2 ≤ ·.2)
  bounded : ∀ entry ∈ starts, entry.2 ≤ length
  current : ∀ reached, starts.current = some reached → reached = surface

namespace LeadsTo

open Mark

variable {S : Type*} {surface last : S} {length stop : ℕ} {starts more after : SurfaceStarts S}
  {marks : List (Mark S)}

section

variable (h : LeadsTo starts surface length)
include h

lemma append (walk : Walk surface length more marks last stop) :
    LeadsTo (starts ++ more) last stop where
  ordered := pairwise_append.mpr ⟨h.ordered, walk.ordered, fun entry hentry other hother =>
    (h.bounded entry hentry).trans (walk.bounds other hother).1⟩
  bounded entry hentry := by
    rcases mem_append.mp hentry with hentry | hentry
    · have := walk.stop_eq
      have := h.bounded entry hentry
      omega
    · exact (walk.bounds entry hentry).2
  current reached hreached := by
    have hlast := walk.last_eq
    rw [SurfaceStarts.current, getLast?_append] at hreached
    cases hmore : more.getLast? with
    | none =>
      rw [hmore, Option.none_or] at hreached
      rw [h.current reached hreached, hlast, SurfaceStarts.current, hmore]
      rfl
    | some entry =>
      rw [hmore, Option.some_or] at hreached
      rw [hlast, SurfaceStarts.current, hmore]
      simpa using hreached.symm

lemma filter_current (hlength : length < stop) :
    (SurfaceStarts.current (starts.filter fun entry => length ≤ entry.2 ∧ entry.2 < stop)).getD
      surface = surface := by
  obtain rfl | ⟨front, entry, rfl⟩ := starts.eq_nil_or_concat
  · rfl
  · have hentry : entry.1 = surface := h.current _ (by simp [SurfaceStarts.current])
    have hbounded := h.bounded entry (by simp)
    by_cases hat : length ≤ entry.2
    · rw [concat_eq_append, filter_append, filter_cons_of_pos (by simp; omega)]
      simp [SurfaceStarts.current, hentry]
    · have hnone : (front.concat entry).filter (fun entry => length ≤ entry.2 ∧ entry.2 < stop) =
          [] := by
        rw [filter_eq_nil_iff]
        intro other hother
        have hle : other.2 ≤ entry.2 := by
          rw [concat_eq_append] at hother
          rcases mem_append.mp hother with hother | hother
          · have hordered := h.ordered
            rw [concat_eq_append, pairwise_append] at hordered
            exact hordered.2.2 other hother entry (by simp)
          · rw [mem_singleton.mp hother]
        simp
        omega
      rw [hnone]
      rfl

/-- What a reused range is given: its own starts and a switch back to the surface it began on. -/
lemma copy (walk : Walk surface length more marks last stop)
    (hafter : ∀ entry ∈ after, stop ≤ entry.2) (hmarks : Settled surface marks) :
    Walk surface length
      ((starts ++ more ++ after).filter (fun entry => length ≤ entry.2 ∧ entry.2 < stop) ++
        [(surface, stop)]) marks surface stop := by
  obtain ⟨before, trailing, stays, middle, rfl, hstays, hwalk, -⟩ := walk.cut
  have hback : Walk middle stop [(surface, stop)] stays surface stop :=
    .switch (Walk.of_settled (hmarks stays (suffix_append _ _) hstays))
  have hmore : more.filter (fun entry => length ≤ entry.2 ∧ entry.2 < stop) =
      more.filter (·.2 < stop) := by
    apply filter_congr
    intro entry hentry
    simp [(walk.bounds entry hentry).1]
  have hnone : after.filter (fun entry => length ≤ entry.2 ∧ entry.2 < stop) = [] := by
    rw [filter_eq_nil_iff]
    intro entry hentry
    have := hafter entry hentry
    simp
    omega
  have hfirst : Walk surface length
      (starts.filter fun entry => length ≤ entry.2 ∧ entry.2 < stop) [] surface length := by
    by_cases hlength : length < stop
    · have hat : ∀ entry ∈ starts.filter fun entry => length ≤ entry.2 ∧ entry.2 < stop,
          entry.2 = length := by
        intro entry hentry
        obtain ⟨hmem, hrange⟩ := mem_filter.mp hentry
        have := h.bounded entry hmem
        simp only [decide_eq_true_eq] at hrange
        omega
      have hsame := @Walk.of_same_length S surface _ _ hat
      rwa [h.filter_current hlength] at hsame
    · have hempty : starts.filter (fun entry => length ≤ entry.2 ∧ entry.2 < stop) = [] := by
        rw [filter_eq_nil_iff]
        intro entry _
        simp
        omega
      rw [hempty]
      exact .nil
  rw [filter_append, filter_append, hmore, hnone, append_nil, append_assoc]
  simpa using hfirst.append (hwalk.append hback)

end

end LeadsTo

section Slices

variable {S : Type*} {starts : SurfaceStarts S}

lemma takeWhile_eq_filter_of_ordered (h : starts.Pairwise (·.2 ≤ ·.2)) (stop : ℕ) :
    starts.takeWhile (·.2 < stop) = starts.filter (·.2 < stop) := by
  induction h with
  | nil => rfl
  | @cons entry starts hentry _ ih =>
    by_cases hlt : entry.2 < stop
    · simp [hlt, ih]
    · have hnone : starts.filter (·.2 < stop) = [] := by
        rw [filter_eq_nil_iff]
        intro other hother
        have := hentry other hother
        simp
        omega
      simp [hlt, hnone]

/-- In starts in order, the two partition points cut out the entries of a range. -/
lemma slice_eq_filter (h : starts.Pairwise (·.2 ≤ ·.2)) {start stop : ℕ} (hle : start ≤ stop) :
    (starts.drop (starts.takeWhile (·.2 < start)).length).take
        ((starts.takeWhile (·.2 < stop)).length - (starts.takeWhile (·.2 < start)).length) =
      starts.filter fun entry => start ≤ entry.2 ∧ entry.2 < stop := by
  induction h with
  | nil => rfl
  | @cons entry starts hentry hstarts ih =>
    by_cases hlt : entry.2 < start
    · have hstop : entry.2 < stop := by omega
      have hout : ¬(start ≤ entry.2 ∧ entry.2 < stop) := by omega
      simpa [hlt, hstop, hout] using ih
    · have hall : ((entry :: starts).filter fun other => start ≤ other.2 ∧ other.2 < stop) =
          (entry :: starts).filter (·.2 < stop) := by
        apply filter_congr
        intro other hother
        have hle : start ≤ other.2 := by
          rcases mem_cons.mp hother with rfl | hother
          · omega
          · have := hentry other hother
            omega
        simp [hle]
      rw [hall, ← takeWhile_eq_filter_of_ordered (.cons hentry hstarts)]
      have hnone : (entry :: starts).takeWhile (·.2 < start) = [] := by simp [hlt]
      rw [hnone]
      simpa using (prefix_iff_eq_take.mp ( takeWhile_prefix _)).symm

end Slices

end GpuiFast
