import GpuiFast.HoverFreeze

namespace GpuiFast

open List

/-- `true`, `false`, `true`, ... of a length. -/
def alternating (n : ℕ) : List Bool := (List.range n).map (fun k => Decidable.decide (k % 2 = 0))

theorem alternating_succ (n : ℕ) :
    alternating (n + 1) = alternating n ++ [Decidable.decide (n % 2 = 0)] := by
  unfold alternating
  rw [range_succ, map_append]
  rfl

namespace HoverWindow

variable {X : Type*} [DecidableEq X]

/-- Each listener heard hover alternately from `true` on, and its state is what it last heard. -/
structure Alternates (w : HoverWindow X) : Prop where
  heard : ∀ c, (w.heard c).reverse = alternating (w.heard c).length
  was : ∀ c, w.wasHovered c = (w.heard c).head?.getD false

variable {w w' : HoverWindow X}

omit [DecidableEq X] in
theorem Alternates.was_eq (h : w.Alternates) (c : ℕ) :
    w.wasHovered c = Decidable.decide ((w.heard c).length % 2 = 1) := by
  have hheard := h.heard c
  rw [h.was c]
  cases hs : w.heard c with
  | nil => rfl
  | cons last rest =>
    rw [hs, reverse_cons, length_cons, alternating_succ] at hheard
    have hlast := (append_inj' hheard rfl).2
    simp only [List.cons.injEq, and_true] at hlast
    rw [head?_cons, Option.getD_some, length_cons, hlast]
    apply decide_eq_decide.mpr
    omega

omit [DecidableEq X] in
theorem Alternates.of_eq (h : w.Alternates) (hheard : w'.heard = w.heard)
    (hwas : w'.wasHovered = w.wasHovered) : w'.Alternates := by
  constructor
  · intro c
    rw [hheard]
    exact h.heard c
  · intro c
    rw [hwas, hheard]
    exact h.was c

omit [DecidableEq X] in
theorem Alternates.update (h : w.Alternates) (listener : HoveredListener) (isHovered : Bool) :
    (w.update listener isHovered).Alternates := by
  unfold HoverWindow.update
  split
  case isTrue => exact h
  case isFalse hne =>
    rw [h.was_eq listener.state] at hne
    constructor
    · intro c
      by_cases hc : c = listener.state
      · subst hc
        have hturn : isHovered =
            Decidable.decide ((w.heard listener.state).length % 2 = 0) := by
          rw [Bool.eq_not_of_ne hne, ← decide_not]
          apply decide_eq_decide.mpr
          omega
        simp only [Function.update_self, reverse_cons, h.heard, length_cons,
          alternating_succ, ← hturn]
      · simp only [Function.update_of_ne hc]
        exact h.heard c
    · intro c
      by_cases hc : c = listener.state
      · subst hc
        simp
      · simp only [Function.update_of_ne hc]
        exact h.was c

def Tracks (w : HoverWindow X) : Prop :=
  ∀ c, w.wasHovered c = true → ∃ held ∈ w.hovered, held.state = c

theorem exists_noteHovered (hovered : List HoveredListener) (listener : HoveredListener) (c : ℕ) :
    (∃ held ∈ noteHovered hovered listener, held.state = c) ↔
      c = listener.state ∨ ∃ held ∈ hovered, held.state = c := by
  unfold noteHovered
  split
  case isTrue hany =>
    simp only [mem_map]
    constructor
    · rintro ⟨_, ⟨held, hheld, rfl⟩, hc⟩
      split at hc
      case isTrue => exact Or.inl hc.symm
      case isFalse => exact Or.inr ⟨held, hheld, hc⟩
    · intro hc
      have hheld : ∃ held ∈ hovered, held.state = c := by
        cases hc with
        | inl heq =>
          simp only [any_eq_true, decide_eq_true_eq] at hany
          rw [heq]
          exact hany
        | inr hmem => exact hmem
      obtain ⟨held, hmem, rfl⟩ := hheld
      refine ⟨_, ⟨held, hmem, rfl⟩, ?_⟩
      split
      case isTrue heq => exact heq.symm
      case isFalse => rfl
  case isFalse =>
    simp only [mem_append, mem_singleton]
    constructor
    · rintro ⟨held, hheld | rfl, hc⟩
      · exact Or.inr ⟨held, hheld, hc⟩
      · exact Or.inl hc.symm
    · rintro (rfl | ⟨held, hheld, hc⟩)
      · exact ⟨listener, Or.inr rfl, rfl⟩
      · exact ⟨held, Or.inl hheld, hc⟩

omit [DecidableEq X] in
theorem Tracks.of_eq (h : w.Tracks) (hwas : w'.wasHovered = w.wasHovered)
    (hhovered : w'.hovered = w.hovered) : w'.Tracks := by
  intro c hc
  rw [hwas] at hc
  rw [hhovered]
  exact h c hc

omit [DecidableEq X] in
theorem Tracks.update (h : w.Tracks) (listener : HoveredListener) (isHovered : Bool) :
    (w.update listener isHovered).Tracks := by
  unfold HoverWindow.update
  split
  case isTrue => exact h
  case isFalse hne =>
    intro c hc
    cases isHovered with
    | true =>
      simp only [if_true]
      apply (exists_noteHovered _ _ _).mpr
      by_cases hself : c = listener.state
      · exact Or.inl hself
      · simp only [Function.update_of_ne hself] at hc
        exact Or.inr (h c hc)
    | false =>
      by_cases hself : c = listener.state
      · subst hself
        simp at hc
      · simp only [Function.update_of_ne hself] at hc
        obtain ⟨held, hheld, rfl⟩ := h c hc
        exact ⟨held, by simpa using ⟨hheld, hself⟩, rfl⟩

def CallsFound (w : HoverWindow X) : Prop :=
  ∀ call ∈ w.deferred, call.isHovered = true → call.listener.state ∈ w.foundHovered

structure Painted (w w' : HoverWindow X) : Prop where
  was : w'.wasHovered = w.wasHovered
  heard : w'.heard = w.heard
  tracks : w.Tracks → w'.Tracks
  calls : w.CallsFound → w'.CallsFound

theorem paint_painted (w : HoverWindow X) (listener : HoveredListener) :
    Painted w (w.paint listener) := by
  have htracked : Painted w (if w.wasHovered listener.state then
      { w with hovered := noteHovered w.hovered listener } else w) := by
    split
    case isTrue =>
      refine ⟨rfl, rfl, ?_, fun h => h⟩
      intro h c hc
      exact (exists_noteHovered _ _ _).mpr (Or.inr (h c hc))
    case isFalse => exact ⟨rfl, rfl, fun h => h, fun h => h⟩
  unfold paint
  revert htracked
  generalize (if w.wasHovered listener.state then
    { w with hovered := noteHovered w.hovered listener } else w) = noted
  intro hnoted
  simp only []
  split
  case isTrue => exact hnoted
  case isFalse =>
    refine ⟨hnoted.was, hnoted.heard, hnoted.tracks, ?_⟩
    intro h call hcall htrue
    have hheld := hnoted.calls h
    simp only at hcall ⊢
    split at hcall
    case isTrue hchange =>
      rw [mem_append, mem_singleton] at hcall
      cases hcall with
      | inl hcall =>
        split
        case isTrue => exact mem_cons_of_mem _ (hheld call hcall htrue)
        case isFalse => exact hheld call hcall htrue
      | inr hcall =>
        subst hcall
        simp only at htrue
        rw [htrue]
        simp
    case isFalse =>
      split
      case isTrue => exact mem_cons_of_mem _ (hheld call hcall htrue)
      case isFalse => exact hheld call hcall htrue

theorem foldl_painted (listeners : List (HoveredListener × ℕ)) (w : HoverWindow X) :
    Painted w (listeners.foldl
      (fun w painted => paint { w with now := painted.2 } painted.1) w) := by
  induction listeners generalizing w with
  | nil => exact ⟨rfl, rfl, fun h => h, fun h => h⟩
  | cons painted listeners ih =>
    have hfirst := paint_painted { w with now := painted.2 } painted.1
    have hrest := ih (paint { w with now := painted.2 } painted.1)
    refine ⟨?_, ?_, ?_, ?_⟩
    · exact hrest.was.trans hfirst.was
    · exact hrest.heard.trans hfirst.heard
    · intro h
      exact hrest.tracks (hfirst.tracks h)
    · intro h
      exact hrest.calls (hfirst.calls h)

structure Answered (w : HoverWindow X) : Prop where
  calls : w.CallsFound
  flagged : ∀ c, w.wasHovered c = true → c ∈ w.foundHovered ∨ c ∈ w.foundPressed ∨
    ∃ call ∈ w.deferred, call.listener.state = c ∧ call.isHovered = false

@[simp]
theorem frozen_ended (w : HoverWindow X) : w.ended.frozen = w.frozen := rfl

@[simp]
theorem stillHovered_ended (w : HoverWindow X) (listener : HoveredListener) :
    w.ended.stillHovered listener = w.stillHovered listener := rfl

theorem releaseUnhovered_answered (htracks : w.Tracks) (hcalls : w.CallsFound)
    (hfrozen : w.frozen = false) : w.ended.releaseUnhovered.Answered := by
  have hcallsFound : w.ended.CallsFound := fun call hcall htrue =>
    mem_append_left _ (hcalls call hcall htrue)
  unfold releaseUnhovered
  rw [frozen_ended, hfrozen, if_neg Bool.false_ne_true]
  constructor
  · intro call hcall htrue
    simp only [mem_append, mem_map] at hcall
    cases hcall with
    | inl hcall => exact hcallsFound call hcall htrue
    | inr hcall =>
      obtain ⟨held, _, rfl⟩ := hcall
      cases htrue
  · intro c hc
    obtain ⟨held, hheld, rfl⟩ := htracks c hc
    by_cases hstill : w.stillHovered held = true
    · unfold stillHovered at hstill
      rw [Bool.or_eq_true] at hstill
      cases hstill with
      | inl hpress =>
        have hpressed : held.state ∈ w.ended.foundPressed :=
          mem_map_of_mem (mem_filter.mpr ⟨hheld, hpress⟩)
        exact Or.inr (Or.inl hpressed)
      | inr hfound =>
        have hhovered : held.state ∈ w.ended.foundHovered :=
          mem_append_right _ (mem_map_of_mem (mem_filter.mpr ⟨hheld, hfound⟩))
        exact Or.inl hhovered
    · refine Or.inr (Or.inr ⟨⟨held, false⟩, ?_, rfl, rfl⟩)
      refine mem_append_right _ (mem_map_of_mem (mem_filter.mpr ⟨hheld, ?_⟩))
      rw [stillHovered_ended, Bool.not_eq_true']
      exact Bool.eq_false_iff.mpr hstill

section Update

variable (w : HoverWindow X) (listener : HoveredListener) (isHovered : Bool)

omit [DecidableEq X] in
theorem update_wasHovered (c : ℕ) : (w.update listener isHovered).wasHovered c =
    if c = listener.state then isHovered else w.wasHovered c := by
  unfold HoverWindow.update
  split
  case isTrue heq =>
    split
    case isTrue hc => rw [hc, heq]
    case isFalse => rfl
  case isFalse => exact Function.update_apply _ _ _ _

omit [DecidableEq X] in
@[simp]
theorem update_deferred : (w.update listener isHovered).deferred = w.deferred := by
  unfold HoverWindow.update
  split <;> rfl

omit [DecidableEq X] in
@[simp]
theorem update_unfrozen : (w.update listener isHovered).unfrozen = w.unfrozen := by
  unfold HoverWindow.update
  split <;> rfl

omit [DecidableEq X] in
@[simp]
theorem update_foundHovered : (w.update listener isHovered).foundHovered = w.foundHovered := by
  unfold HoverWindow.update
  split <;> rfl

omit [DecidableEq X] in
@[simp]
theorem update_foundPressed : (w.update listener isHovered).foundPressed = w.foundPressed := by
  unfold HoverWindow.update
  split <;> rfl

end Update

omit [DecidableEq X] in
theorem Answered.update (h : w.Answered) (listener : HoveredListener) (isHovered : Bool)
    (hfound : isHovered = true → listener.state ∈ w.foundHovered) :
    (w.update listener isHovered).Answered := by
  constructor
  · intro call hcall htrue
    rw [update_deferred] at hcall
    rw [update_foundHovered]
    exact h.calls call hcall htrue
  · intro c hc
    rw [update_wasHovered] at hc
    rw [update_foundHovered, update_foundPressed, update_deferred]
    split at hc
    case isTrue hself =>
      rw [hself]
      exact Or.inl (hfound hc)
    case isFalse => exact h.flagged c hc

omit [DecidableEq X] in
theorem Answered.call (h : w.Answered) {call : DeferredHover} {deferred : List DeferredHover}
    (hdeferred : w.deferred = call :: deferred) :
    (HoverWindow.update { w with deferred := deferred } call.listener
      call.isHovered).Answered := by
  constructor
  · intro other hother htrue
    rw [update_deferred] at hother
    rw [update_foundHovered]
    apply h.calls other _ htrue
    rw [hdeferred]
    exact mem_cons_of_mem _ hother
  · intro c hc
    rw [update_wasHovered] at hc
    rw [update_foundHovered, update_foundPressed, update_deferred]
    split at hc
    case isTrue hself =>
      rw [hself]
      apply Or.inl
      apply h.calls call _ hc
      rw [hdeferred]
      exact mem_cons_self
    case isFalse hself =>
      have hflagged := h.flagged c hc
      rw [hdeferred] at hflagged
      rcases hflagged with hhovered | hpressed | ⟨other, hother, hstate, hfalse⟩
      · exact Or.inl hhovered
      · exact Or.inr (Or.inl hpressed)
      · cases mem_cons.mp hother with
        | inl heq =>
          rw [heq] at hstate
          exact absurd hstate.symm hself
        | inr hother => exact Or.inr (Or.inr ⟨other, hother, hstate, hfalse⟩)

structure Kept (w : HoverWindow X) : Prop where
  alternates : w.Alternates
  tracks : w.Tracks

omit [DecidableEq X] in
theorem Kept.update (h : w.Kept) (listener : HoveredListener) (isHovered : Bool) :
    (w.update listener isHovered).Kept :=
  ⟨h.alternates.update listener isHovered, h.tracks.update listener isHovered⟩

omit [DecidableEq X] in
theorem Kept.of_eq (h : w.Kept) (hheard : w'.heard = w.heard) (hwas : w'.wasHovered = w.wasHovered)
    (hhovered : w'.hovered = w.hovered) : w'.Kept :=
  ⟨h.alternates.of_eq hheard hwas, h.tracks.of_eq hwas hhovered⟩

theorem releaseUnhovered_kept (h : w.Kept) : w.releaseUnhovered.Kept := by
  unfold releaseUnhovered
  split
  case isTrue => exact h
  case isFalse => exact h.of_eq rfl rfl rfl

theorem releaseUnhovered_unfrozen (w : HoverWindow X) :
    w.releaseUnhovered.unfrozen = w.unfrozen := by
  unfold releaseUnhovered
  split <;> rfl

/-- A drawn frame tells nobody, and when no call waited that tells a listener it is hovered, it
answers for all of them if it was drawn without the freeze. -/
theorem draw_holds (h : w.Kept) (d : HoverDraw X) :
    (w.draw d).Kept ∧ ((∀ call ∈ w.deferred, call.isHovered = false) →
      (w.draw d).unfrozen = true → (w.draw d).Answered) := by
  unfold draw
  simp only []
  generalize hnext : (⟨d.painted.map (·.1) ++ d.carried.filter (· ∈ w.renderedFrame.listeners),
    d.hitboxes, fun position => (d.hitTest position).filter (· ∈ d.hitboxes)⟩ :
      HoverFrame X) = next
  have hbegun : Kept { w with
      mouseHitTest := (d.hitTest w.mousePosition).filter (· ∈ d.hitboxes)
      foundHovered := [], foundPressed := [] } := h.of_eq rfl rfl rfl
  have hpaint := foldl_painted d.painted { w with
      mouseHitTest := (d.hitTest w.mousePosition).filter (· ∈ d.hitboxes)
      foundHovered := [], foundPressed := [] }
  revert hpaint
  generalize d.painted.foldl (fun w painted => paint { w with now := painted.2 } painted.1)
    { w with
      mouseHitTest := (d.hitTest w.mousePosition).filter (· ∈ d.hitboxes)
      foundHovered := [], foundPressed := [] } = painted
  intro hpaint
  have hkept : painted.Kept :=
    ⟨hbegun.alternates.of_eq hpaint.heard hpaint.was, hpaint.tracks hbegun.tracks⟩
  refine ⟨releaseUnhovered_kept (hkept.of_eq rfl rfl rfl), ?_⟩
  intro hnone hunfrozen
  rw [releaseUnhovered_unfrozen] at hunfrozen
  apply releaseUnhovered_answered
  · exact hkept.tracks.of_eq rfl rfl
  · have hcalls : painted.CallsFound := by
      apply hpaint.calls
      intro call hcall htrue
      rw [hnone call hcall] at htrue
      cases htrue
    exact hcalls
  · exact (Bool.not_eq_true' _).mp hunfrozen

omit [DecidableEq X] in
theorem Answered.of_eq (h : w.Answered) (hwas : w'.wasHovered = w.wasHovered)
    (hdeferred : w'.deferred = w.deferred) (hfound : ∀ c ∈ w.foundHovered, c ∈ w'.foundHovered)
    (hpressed : w'.foundPressed = w.foundPressed) : w'.Answered := by
  constructor
  · intro call hcall htrue
    rw [hdeferred] at hcall
    exact hfound _ (h.calls call hcall htrue)
  · intro c hc
    rw [hwas] at hc
    rw [hpressed, hdeferred]
    cases h.flagged c hc with
    | inl hhovered => exact Or.inl (hfound c hhovered)
    | inr hrest => exact Or.inr hrest

/-- What holds of a window while every frame is drawn with no call waiting that tells a listener it
is hovered. -/
structure Holds (w : HoverWindow X) : Prop where
  kept : w.Kept
  answered : w.unfrozen = true → w.Answered

omit [DecidableEq X] in
theorem Holds.of_eq (h : w.Holds) (hheard : w'.heard = w.heard)
    (hwas : w'.wasHovered = w.wasHovered) (hhovered : w'.hovered = w.hovered)
    (hdeferred : w'.deferred = w.deferred) (hunfrozen : w'.unfrozen = w.unfrozen)
    (hfound : ∀ c ∈ w.foundHovered, c ∈ w'.foundHovered)
    (hpressed : w'.foundPressed = w.foundPressed) : w'.Holds := by
  refine ⟨h.kept.of_eq hheard hwas hhovered, ?_⟩
  intro hrel
  rw [hunfrozen] at hrel
  exact (h.answered hrel).of_eq hwas hdeferred hfound hpressed

theorem Holds.step (h : w.Holds) (event : HoverEvent X)
    (hsettled : ∀ frame, event = .draw frame → ∀ call ∈ w.deferred, call.isHovered = false) :
    (w.step event).Holds := by
  have hsame : ∀ c ∈ w.foundHovered, c ∈ w.foundHovered := fun _ hc => hc
  cases event with
  | draw frame =>
    have hdraw := draw_holds h.kept frame
    exact ⟨hdraw.1, hdraw.2 (hsettled frame rfl)⟩
  | runDeferred =>
    unfold HoverWindow.step
    cases hdeferred : w.deferred with
    | nil => exact h
    | cons call deferred =>
      simp only []
      constructor
      · have hkept : Kept { w with deferred := deferred } := h.kept.of_eq rfl rfl rfl
        exact hkept.update _ _
      · intro hunfrozen
        rw [update_unfrozen] at hunfrozen
        exact (h.answered hunfrozen).call hdeferred
  | point position keyboard time => exact h.of_eq rfl rfl rfl rfl rfl hsame rfl
  | wheel =>
    unfold HoverWindow.step
    simp only []
    split
    case isTrue => exact h.of_eq rfl rfl rfl rfl rfl hsame rfl
    case isFalse => exact h
  | hitTest => exact h.of_eq rfl rfl rfl rfl rfl hsame rfl
  | moved listener =>
    unfold HoverWindow.step
    simp only []
    split
    case isTrue =>
      generalize hfound : (!w.hasActiveDrag && w.isHovered false listener) = found
      have hseen : Holds { w with
          foundHovered := if found then listener.state :: w.foundHovered
            else w.foundHovered } := by
        refine h.of_eq rfl rfl rfl rfl rfl ?_ rfl
        intro c hc
        simp only
        split
        case isTrue => exact mem_cons_of_mem _ hc
        case isFalse => exact hc
      refine ⟨hseen.kept.update _ _, ?_⟩
      intro hunfrozen
      rw [update_unfrozen] at hunfrozen
      apply (hseen.answered hunfrozen).update
      intro htrue
      rw [Bool.and_eq_true] at htrue
      rw [htrue.2]
      exact mem_cons_self
    case isFalse => exact h
  | exited listener =>
    unfold HoverWindow.step
    simp only []
    split
    case isTrue =>
      refine ⟨h.kept.update _ _, ?_⟩
      intro hunfrozen
      rw [update_unfrozen] at hunfrozen
      exact (h.answered hunfrozen).update listener false (fun hfalse => by cases hfalse)
    case isFalse => exact h
  | press state down => exact h.of_eq rfl rfl rfl rfl rfl hsame rfl
  | capture hitbox => exact h.of_eq rfl rfl rfl rfl rfl hsame rfl
  | drag active => exact h.of_eq rfl rfl rfl rfl rfl hsame rfl

omit [DecidableEq X] in
theorem start_holds (position : X) (enabled : Bool) : (start position enabled).Holds := by
  constructor
  · constructor
    · exact ⟨fun _ => rfl, fun _ => rfl⟩
    · intro c hc
      cases hc
  · intro hunfrozen
    cases hunfrozen

theorem run_holds (events : List (HoverEvent X)) (w : HoverWindow X) (h : w.Holds)
    (hsettled : w.Settled events) : (w.run events).Holds := by
  induction events generalizing w with
  | nil => exact h
  | cons event events ih => exact ih (w.step event) (h.step event hsettled.1) hsettled.2

/-- What hover listeners hear: true, false, true, ... alternately, and true last, once the calls
deferred were made after a frame drawn without the freeze, only where that frame has them hovered or
their elements, still drawn, under a press. -/
def HearsEnd (w : HoverWindow X) : Prop :=
  (∀ c, (w.heard c).reverse = alternating (w.heard c).length) ∧
    (w.unfrozen = true → w.deferred = [] → ∀ c, (w.heard c).head? = some true →
      c ∈ w.foundHovered ∨ c ∈ w.foundPressed)

/-- In every run in which no call telling a listener it is hovered waits while a frame is drawn,
hover listeners hear hover end. -/
theorem run_hearsEnd (position : X) (enabled : Bool) (events : List (HoverEvent X))
    (hsettled : (start position enabled).Settled events) :
    ((start position enabled).run events).HearsEnd := by
  have h := run_holds events _ (start_holds position enabled) hsettled
  refine ⟨h.kept.alternates.heard, ?_⟩
  intro hunfrozen hdeferred c hc
  have hwas := h.kept.alternates.was c
  rw [hc] at hwas
  rcases (h.answered hunfrozen).flagged c hwas with hhovered | hpressed | ⟨call, hcall, _⟩
  · exact Or.inl hhovered
  · exact Or.inr hpressed
  · rw [hdeferred] at hcall
    cases hcall

/-- A frame with one listener, painted with a hitbox that is hovered at position `5`. -/
def oneListener (hitbox time : ℕ) : HoverDraw ℕ where
  painted := [(⟨0, hitbox, .inputModalityAware⟩, time)]
  carried := []
  hitboxes := [hitbox]
  hitTest := fun position => if position = 5 then [hitbox] else []
  endedAt := time

def tapped : List (HoverEvent ℕ) :=
  [.draw (oneListener 1 0), .runDeferred, .point 9 false 1, .hitTest, .press 0 true,
    .press 0 false, .draw (oneListener 2 1), .runDeferred]

def tappedAtOnce : List (HoverEvent ℕ) :=
  [.draw (oneListener 1 0), .point 9 false 1, .hitTest, .press 0 true, .press 0 false,
    .draw (oneListener 2 1), .runDeferred]

theorem run_hearsEnd_tapped :
    (start 5 true).Settled tapped ∧ ((start 5 true).run tapped).HearsEnd := by
  have hsettled : (start 5 true).Settled tapped := by
    refine ⟨?_, ?_, ?_, ?_, ?_, ?_, ?_, ?_, trivial⟩
    · intro _ _ call hcall
      exact (not_mem_nil hcall).elim
    · intro _ h
      cases h
    · intro _ h
      cases h
    · intro _ h
      cases h
    · intro _ h
      cases h
    · intro _ h
      cases h
    · intro _ _ call hcall
      exact (not_mem_nil hcall).elim
    · intro _ h
      cases h
  exact ⟨hsettled, run_hearsEnd 5 true tapped hsettled⟩

theorem hearsEnd_tappedAtOnce : ¬ ((start 5 true).run tappedAtOnce).HearsEnd := by
  intro h
  have hfound := h.2 (by decide) (by decide) 0 (by decide)
  revert hfound
  decide

end HoverWindow

end GpuiFast
